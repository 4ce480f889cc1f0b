import StudioWorker.Catalog
import StudioWorker.Text

/-!
# Seeds — the catalogue the worker ships with (`src/catalog.rs`)

`lit` is what a decimal literal of the source denotes as a `f32`.

* `Catalog.seed`: the eight models.
* `Catalog.seedIds`: their ids.
-/

namespace StudioWorker

open Text

/-- A model file on Hugging Face, pinned to a repository revision. -/
def hfFile (repo revision path : String) (bytes : ℕ) (sha256 : String) : ModelFile where
  role := .model
  url := s!"https://huggingface.co/{repo}/resolve/{revision}/{path}"
  filename := String.ofList (((rsplitOnce ['/'] path.toList).map (·.2)).getD path.toList)
  approxBytes := some bytes
  sha256 := some sha256

def parakeetRsRevision : String := "4d2a8bc71f5c896ec40faa59732e6716295edaf2"

/-- A file of a streaming speech seed, in its directory. -/
def parakeetRsFile (dir name : String) (bytes : ℕ) (sha256 : String) : ModelFile :=
  hfFile "altunenes/parakeet-rs" parakeetRsRevision s!"{dir}/{name}" bytes sha256

section

variable {F : Type} [Zero F] (lit : ℚ → F)

/-- `ModelCliDefaults::default()`. -/
def ModelCliDefaults.empty : ModelCliDefaults F := { cfgScale := 0 }

def zimageTurbo : CatalogModel F where
  id := "z-image-turbo-q4_k_m.gguf"
  displayName := "Z-Image Turbo (Q4_K_M)"
  kind := .image
  vramGbEstimate := lit 12
  description := some ("Distilled 8-step diffusion model packaged for sd.cpp. Diffusion (Q4_K), " ++
    "Qwen3-4B text encoder, Flux ae.safetensors VAE.")
  source :=
    { engine := .sdCpp
      files :=
        [{ role := .diffusionModel
           url := "https://huggingface.co/leejet/Z-Image-Turbo-GGUF/resolve/main/" ++
             "z_image_turbo-Q4_K.gguf"
           filename := "z_image_turbo-Q4_K.gguf"
           approxBytes := some 3864250304
           sha256 := some "14b375ab4f226bc5378f68f37e899ef3c2242b8541e61e2bc1aff40976086fbd" },
         { role := .textEncoder
           url := "https://huggingface.co/unsloth/Qwen3-4B-Instruct-2507-GGUF/resolve/main/" ++
             "Qwen3-4B-Instruct-2507-Q4_K_M.gguf"
           filename := "Qwen3-4B-Instruct-2507-Q4_K_M.gguf"
           approxBytes := some 2497281120
           sha256 := some "3605803b982cb64aead44f6c1b2ae36e3acdb41d8e46c8a94c6533bc4c67e597" },
         { role := .vae
           url := "https://huggingface.co/Comfy-Org/Lumina_Image_2.0_Repackaged/resolve/main/" ++
             "split_files/vae/ae.safetensors"
           filename := "ae.safetensors"
           approxBytes := some 335304388
           sha256 := some "afc8e28272cd15db3919bacdb6918ce9c1ed22e96cb12c4d5ed0fba823529e38" }]
      cliDefaults :=
        { ModelCliDefaults.empty with
          cfgScale := lit 1
          steps := 8
          width := 1024
          height := 1024
          samplingMethod := some "euler" } }
  enabled := true
  origin := "local"
  exclusiveGroup := none

/-- The chat template variables of the Qwen seeds. -/
def noThinking : String := "\x7b\"enable_thinking\":false\x7d"

def qwen3508b : CatalogModel F where
  id := "qwen3.5-0.8b"
  displayName := "Qwen3.5 0.8B instruct (Q8_0)"
  kind := .llm
  vramGbEstimate := lit 1.5
  description := some "Small chat model: reasoning off, 32K context"
  source :=
    { engine := .llamaCpp
      files :=
        [hfFile "unsloth/Qwen3.5-0.8B-GGUF" "6ab461498e2023f6e3c1baea90a8f0fe38ab64d0"
          "Qwen3.5-0.8B-Q8_0.gguf" 811843840
          "0ad885ffd4bb022fc4f0d33a3308fa108ef8613159d3b3a67e23abca056b7a6c"]
      cliDefaults :=
        { ModelCliDefaults.empty with
          contextSize := some 32768
          chatTemplateKwargs := some noThinking } }
  enabled := true
  origin := "local"
  exclusiveGroup := none

def qwen352b : CatalogModel F where
  id := "qwen3.5-2b"
  displayName := "Qwen3.5 2B instruct (Q8_0)"
  kind := .llm
  vramGbEstimate := lit 3
  description := some "Chat model: reasoning off, 32K context"
  source :=
    { engine := .llamaCpp
      files :=
        [hfFile "unsloth/Qwen3.5-2B-GGUF" "f6d5376be1edb4d416d56da11e5397a961aca8ae"
          "Qwen3.5-2B-Q8_0.gguf" 2012012800
          "1b04acba824817554f4ce23639bc8495ff70453b8fcb047900c731521021f2c1"]
      cliDefaults :=
        { ModelCliDefaults.empty with
          contextSize := some 32768
          chatTemplateKwargs := some noThinking } }
  enabled := true
  origin := "local"
  exclusiveGroup := none

def nemotronDir : String := "nemotron-3.5-asr-streaming-0.6b-onnx"

def nemotronStream : CatalogModel F where
  id := "nemotron-3.5-stream"
  displayName := "Nemotron 3.5 streaming (0.6B, multilingual)"
  kind := .audioStt
  vramGbEstimate := lit 3.5
  description := some "Streaming speech-to-text with punctuation"
  source :=
    { engine := .parakeet
      files :=
        [parakeetRsFile nemotronDir "config.json" 2979
          "b0289e196d11a17e3c661bbadfe455c87de4baffc1a5e652a5779f5d687c5db0",
         parakeetRsFile nemotronDir "decoder_joint.onnx" 97590054
          "634dfadf24cb4f73c2fae170b36611d68db48186426882cbc8f7e02ed9f2bb29",
         parakeetRsFile nemotronDir "encoder.onnx" 42164972
          "d569fbe78b48fbb04e169d324f5d25463838ceed7b5fc3bfe209872441979bd9",
         parakeetRsFile nemotronDir "encoder.onnx.data" 2454405120
          "7584f85df76bc9ae6fbdfa53aa8d97b07a842525d1c501d536d77fd9e4f57ac7",
         parakeetRsFile nemotronDir "tokenizer.model" 406554
          "ce3895e40806f02a26c3a225161b96ef682d6c0054bae32a245dec4258d7d291"]
      cliDefaults := .empty }
  enabled := true
  origin := "local"
  exclusiveGroup := some "stt"

def parakeetEouDir : String := "realtime_eou_120m-v1-onnx"

def parakeetEou : CatalogModel F where
  id := "parakeet-eou-120m"
  displayName := "Parakeet EOU (120M, English)"
  kind := .audioStt
  vramGbEstimate := lit 1.2
  description := some "Light streaming speech-to-text, English"
  source :=
    { engine := .parakeet
      files :=
        [parakeetRsFile parakeetEouDir "decoder_joint.onnx" 21347639
          "9d2553ac043c2fc5f69e970769b0fb8ab9103fbfdeb7d26a1ea9729d4bd2dddd",
         parakeetRsFile parakeetEouDir "encoder.onnx" 459341289
          "d472887cc38a784a5bfc21c2dbe247639edc3b3f9992388d8ceceaec07256b5b",
         parakeetRsFile parakeetEouDir "tokenizer.json" 20053
          "f6b0ad8690559351fa478116fe0985a203b76f7c040f3a9381f485c99c0325f8"]
      cliDefaults := .empty }
  enabled := true
  origin := "local"
  exclusiveGroup := some "stt"

def megadetectorV5a : CatalogModel F where
  id := "megadetector-v5a"
  displayName := "MegaDetector v5a (camera trap animals)"
  kind := .vision
  vramGbEstimate := lit 2
  description := some "Finds animals, people and vehicles; filters blank pictures"
  source :=
    { engine := .onnxVision
      files :=
        [hfFile "malyvsen/megadetector-v5a-onnx" "f042c11430241afaf986a1f856f0d2552811628f"
          "md_v5a.0.0.onnx" 561711905
          "6b81668c931a15a0117cb43f810ee06ee1009896d71831d060ba3fb8d286cfa0"]
      cliDefaults :=
        { ModelCliDefaults.empty with
          width := 1280
          height := 1280
          vision := some
            { task := .detect
              labels := ["animal", "person", "vehicle"]
              animalLabels := some ["animal"]
              minConfidence := some (lit 0.2)
              iou := some (lit 0.45) } } }
  enabled := true
  origin := "local"
  exclusiveGroup := none

def speciesnetV4a : CatalogModel F where
  id := "speciesnet-v4a"
  displayName := "SpeciesNet v4.0.1a (camera trap species, crops)"
  kind := .vision
  vramGbEstimate := lit 1.5
  description := some "Names an animal's crop over 2 498 species, with taxonomy"
  source :=
    { engine := .onnxVision
      files :=
        [hfFile "daslearning/Google-SpeciesNet-ONNX" "9022b5f81b49ee090dd8f384581178d1c7432ff3"
          "onnx/spicesNet_v401a.onnx" 223998606
          "3241441fc5783d1a909ae5c2af432b97ff8210abe336d03f62b24373a61bc1fa",
         { hfFile "earthtoolsmaker/speciesnet" "8fb0eeea863afe62e442305bf41112316bf59709"
            "4.0.1a/always_crop_99710272_22x8_v12_epoch_00148.labels.txt" 256138
            "b6b7f5c9e3bff6730c0c526ed717df5e5a251c2062070458387cb7de84017052" with
           role := .labels }]
      cliDefaults :=
        { ModelCliDefaults.empty with
          width := 480
          height := 480
          vision := some
            { task := .classify
              topK := some 5
              channelsLast := some true
              cropMargin := some 0 } } }
  enabled := true
  origin := "local"
  exclusiveGroup := none

def birdRepo : String := "chriamue/bird-species-classifier"
def birdRevision : String := "c8b211833491b1032250462c2b7e53e02f4de336"

def birdSpecies : CatalogModel F where
  id := "bird-species-efficientnet-b2"
  displayName := "Bird species (EfficientNet-B2, 525 species)"
  kind := .vision
  vramGbEstimate := lit 0.5
  description := some "Ranks 525 bird species with confidences"
  source :=
    { engine := .onnxVision
      files :=
        [hfFile birdRepo birdRevision "onnx/model.onnx" 33741738
          "09b950b371030de9003824baa66457f2e8fc4f96fe87a34cc4c3b242b2864d8b",
         { hfFile birdRepo birdRevision "config.json" 32307
            "c0e5dcd2132ca2bb1e25c2b6d5bddee5201418307fda9d7cfe063600729afeb4" with
           role := .labels }]
      cliDefaults :=
        { ModelCliDefaults.empty with
          width := 260
          height := 260
          vision := some
            { task := .classify
              mean := some (lit 0.485, lit 0.456, lit 0.406)
              std := some (lit 0.47853944, lit 0.4732864, lit 0.47434163)
              topK := some 5 } } }
  enabled := true
  origin := "local"
  exclusiveGroup := none

/-- The built-in catalogue: every model the worker ships seeded with. -/
def Catalog.seed : Catalog F where
  models :=
    [zimageTurbo lit, qwen3508b lit, qwen352b lit, nemotronStream lit, parakeetEou lit,
      megadetectorV5a lit, speciesnetV4a lit, birdSpecies lit]
  dismissedSeeds := []

def Catalog.seedIds : List String :=
  ["z-image-turbo-q4_k_m.gguf", "qwen3.5-0.8b", "qwen3.5-2b", "nemotron-3.5-stream",
    "parakeet-eou-120m", "megadetector-v5a", "speciesnet-v4a", "bird-species-efficientnet-b2"]

theorem Catalog.seed_ids : (seed lit).models.map (·.id) = seedIds := rfl

end

end StudioWorker
