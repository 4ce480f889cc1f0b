import Mathlib.Data.List.Nodup
import Mathlib.Data.List.Perm.Basic
import StudioWorker.Lib.Dataflow
import StudioWorker.Text

/-!
# Convert.WrapIo — float32 around a quantised graph (`python/convert/converter.py`)

What the operators and the tensors of a graph mean is arbitrary.

* `wrapInput`, `wrapOutput`, `wrapIo`: as in the source.
* `Graph.WellFormed`, `Graph.meaning`: what a graph is to be, and what it computes.
* `Fits`: the graphs that the names and the nodes which are added fit into.
* `wrapIo_correct_iff`: on these, and only these, the wrapped graph is what it should be.
-/

namespace StudioWorker.Convert

open Text Lib.Dataflow
open scoped List

/-! ## Graphs -/

/-- `TensorProto.FLOAT` -/
def floatType : ℕ := 1

inductive Dim where
  | unset
  | param (name : Text)
  | value (n : ℤ)
deriving DecidableEq

structure ValueInfo where
  name : Text
  elemType : ℕ
  dims : List Dim
deriving DecidableEq

inductive Op (O : Type) where
  | quantizeLinear
  | dequantizeLinear
  | other (o : O)
deriving DecidableEq

/-- A tensor of a graph: one of its own, or a scale or a zero point. -/
inductive Tensor (T F : Type) where
  | given (t : T)
  | scale (s : F)
  | zeroPoint (elemType : ℕ) (z : ℤ)
deriving DecidableEq

structure Graph (O T F : Type) where
  inputs : List ValueInfo
  outputs : List ValueInfo
  initializers : List (Text × Tensor T F)
  nodes : List (Node (Op O) Text)

/-- A scale and a zero point. -/
abbrev Quantisation (F : Type) := F × ℤ

variable {O T F : Type}

def quantisedName (name : Text) : Text := name ++ "_quantised".toList
def scaleName (name : Text) : Text := name ++ "_scale".toList
def zeroPointName (name : Text) : Text := name ++ "_zero_point".toList

def replace (name inner t : Text) : Text := if t = name then inner else t

/-- The tensors that are added for a quantisation. -/
def parameters (value : ValueInfo) (q : Quantisation F) : List (Text × Tensor T F) :=
  [(scaleName value.name, .scale q.1), (zeroPointName value.name, .zeroPoint value.elemType q.2)]

def wrapInput (g : Graph O T F) (input : ValueInfo) (q : Quantisation F) : Graph O T F :=
  let name := input.name
  let inner := quantisedName name
  let nodes := g.nodes.map fun node => { node with inputs := node.inputs.map (replace name inner) }
  { g with
    inputs := [{ input with elemType := floatType }]
    initializers := g.initializers ++ parameters input q
    nodes := ⟨.quantizeLinear, [name, scaleName name, zeroPointName name], [inner]⟩ :: nodes }

def wrapOutput (g : Graph O T F) (output : ValueInfo) (q : Quantisation F) : Graph O T F :=
  let name := output.name
  let inner := quantisedName name
  let nodes := g.nodes.map fun node =>
    { node with outputs := node.outputs.map (replace name inner) }
  { g with
    outputs := [{ output with elemType := floatType }]
    initializers := g.initializers ++ parameters output q
    nodes := nodes ++
      [⟨.dequantizeLinear, [inner, scaleName name, zeroPointName name], [name]⟩] }

/-- `dims[0].dim_value = 1`, where there are dims. -/
def ValueInfo.fixBatch (value : ValueInfo) : ValueInfo :=
  { value with
    dims := match value.dims with
      | [] => []
      | _ :: rest => .value 1 :: rest }

def Graph.fixBatch (g : Graph O T F) : Graph O T F :=
  { g with inputs := g.inputs.map (·.fixBatch), outputs := g.outputs.map (·.fixBatch) }

/-- Where there is a quantisation, its zero point is to be one of the element type. -/
def wrapWith (zeroPointError : ℕ → ℤ → Option Text) (wrap : Quantisation F → Graph O T F)
    (g : Graph O T F) (value : ValueInfo) (q : Option (Quantisation F)) :
    Except Text (Graph O T F) :=
  match q with
  | none => .ok g
  | some q =>
    match zeroPointError value.elemType q.2 with
    | some e => .error e
    | none => .ok (wrap q)

/-- Float32 in and out around a quantised graph, with batch 1; and what was wrapped.
`zeroPointError` is why a zero point is none of an element type. -/
def wrapIo (zeroPointError : ℕ → ℤ → Option Text) (g : Graph O T F)
    (inputQuantisation outputQuantisation : Option (Quantisation F)) :
    Except Text (Graph O T F × Option (Quantisation F) × Option (Quantisation F)) :=
  match g.inputs, g.outputs with
  | [input], [output] => do
    let g ← wrapWith zeroPointError (wrapInput g input) g input inputQuantisation
    let g ← wrapWith zeroPointError (wrapOutput g output) g output outputQuantisation
    return (g.fixBatch, inputQuantisation, outputQuantisation)
  | inputs, outputs => .error ("expected one input and one output, found ".toList ++
      (toString inputs.length).toList ++ " and ".toList ++ (toString outputs.length).toList)

/-! ## What a graph is to be, and what it computes -/

/-- What the nodes may read from the start. -/
def Graph.known (g : Graph O T F) : List Text :=
  g.inputs.map (·.name) ++ g.initializers.map Prod.fst

/-- Every name that there is, once for each time that it is produced. -/
def Graph.names (g : Graph O T F) : List Text := g.known ++ defines g.nodes

/-- Each name is produced once, and before its use. -/
structure Graph.WellFormed (g : Graph O T F) : Prop where
  nodup : g.names.Nodup
  ordered : Ordered g.known g.nodes
  output : ∀ o ∈ g.outputs, o.name ∈ g.names

structure Meaning (O T F V : Type) where
  sem : Semantics (Op O) V
  value : Tensor T F → V

variable {V : Type}

def Graph.start (M : Meaning O T F V) (g : Graph O T F) (input : Text) (x : V) :
    Text → Option V := fun t =>
  if t = input then some x else (g.initializers.lookup t).map M.value

/-- What the output is for the input `x`. -/
def Graph.meaning (M : Meaning O T F V) (g : Graph O T F) (x : V) : Option V :=
  match g.inputs, g.outputs with
  | [input], [output] =>
    (run M.sem (g.start M input.name x) g.nodes).bind fun env => env output.name
  | _, _ => none

/-- `QuantizeLinear` or `DequantizeLinear` of one value, where there is a quantisation. -/
def Meaning.requantise (M : Meaning O T F V) (op : Op O) (value : ValueInfo)
    (q : Option (Quantisation F)) (x : V) : Option V :=
  match q with
  | none => some x
  | some q => M.sem op [x, M.value (.scale q.1), M.value (.zeroPoint value.elemType q.2)] 0

/-- The wrapped graph is well formed, and dequantises what the graph makes of the quantised
input. -/
structure Correct (g wrapped : Graph O T F) (input output : ValueInfo)
    (qIn qOut : Option (Quantisation F)) : Prop where
  well_formed : wrapped.WellFormed
  meaning : ∀ (V : Type) (M : Meaning O T F V) (x : V), wrapped.meaning M x =
    (M.requantise .quantizeLinear input qIn x).bind fun x =>
      (g.meaning M x).bind fun y => M.requantise .dequantizeLinear output qOut y

/-- The names that are added around a tensor. -/
def added (name : Text) : List Text := [scaleName name, zeroPointName name, quantisedName name]

/-- The graphs that can be wrapped.  The names that are added are new; an input that is quantised
is not the output; an output that is quantised is produced by a node and read by none. -/
structure Fits (g : Graph O T F) (input output : ValueInfo) (qIn qOut : Option (Quantisation F)) :
    Prop where
  new_in : qIn ≠ none → ∀ t ∈ added input.name, t ∉ g.names
  apart : qIn ≠ none → output.name ≠ input.name
  new_out : qOut ≠ none → ∀ t ∈ added output.name, t ∉ g.names
  produced : qOut ≠ none → output.name ∈ defines g.nodes
  unread : qOut ≠ none → ∀ n ∈ g.nodes, output.name ∉ n.inputs

/-! ## The added names -/

theorem getLast_of_append {a b s s' : Text} (hs : s ≠ []) (hs' : s' ≠ []) (h : a ++ s = b ++ s') :
    s.getLast hs = s'.getLast hs' := by
  rw [← List.getLast_append_of_ne_nil (List.append_ne_nil_of_right_ne_nil a hs) hs,
    ← List.getLast_append_of_ne_nil (List.append_ne_nil_of_right_ne_nil b hs') hs']
  simp only [h]

theorem quantisedName_ne_scaleName (a b : Text) : quantisedName a ≠ scaleName b := fun h =>
  absurd (getLast_of_append (by decide) (by decide) h) (by decide)

theorem quantisedName_ne_zeroPointName (a b : Text) : quantisedName a ≠ zeroPointName b := fun h =>
  absurd (getLast_of_append (by decide) (by decide) h) (by decide)

theorem scaleName_ne_zeroPointName (a b : Text) : scaleName a ≠ zeroPointName b := fun h =>
  absurd (getLast_of_append (by decide) (by decide) h) (by decide)

theorem ne_append_of_ne_nil {a s : Text} (hs : s ≠ []) : a ++ s ≠ a := fun h =>
  hs (List.append_right_eq_self.mp h)

theorem added_nodup (name : Text) : (added name).Nodup := by
  rw [added, List.nodup_cons, List.nodup_cons, List.mem_pair, List.mem_singleton]
  refine ⟨?_, ?_, List.nodup_singleton _⟩
  · rintro (h | h)
    · exact scaleName_ne_zeroPointName _ _ h
    · exact quantisedName_ne_scaleName _ _ h.symm
  · exact fun h => quantisedName_ne_zeroPointName _ _ h.symm

/-- Different tensors have different names added. -/
theorem added_disjoint {a b t : Text} (hne : a ≠ b) (ha : t ∈ added a) : t ∉ added b := by
  intro hb
  rw [added, List.mem_cons, List.mem_pair] at ha hb
  rcases ha with rfl | rfl | rfl <;> rcases hb with hb | hb | hb
  · exact hne (List.append_cancel_right hb)
  · exact scaleName_ne_zeroPointName _ _ hb
  · exact quantisedName_ne_scaleName _ _ hb.symm
  · exact scaleName_ne_zeroPointName _ _ hb.symm
  · exact hne (List.append_cancel_right hb)
  · exact quantisedName_ne_zeroPointName _ _ hb.symm
  · exact quantisedName_ne_scaleName _ _ hb
  · exact quantisedName_ne_zeroPointName _ _ hb
  · exact hne (List.append_cancel_right hb)

/-! ## The renaming -/

section Renaming

variable {name inner t : Text} {S : Set Text}

@[simp] theorem replace_self (name inner : Text) : replace name inner name = inner := if_pos rfl

theorem replace_of_ne (h : t ≠ name) : replace name inner t = t := if_neg h

theorem replace_injOn (h : inner ∉ S) : Set.InjOn (replace name inner) S := by
  intro a ha b hb heq
  rw [replace, replace] at heq
  split_ifs at heq with h₁ h₂ h₂
  · rw [h₁, h₂]
  · exact absurd (heq ▸ hb) h
  · exact absurd (heq ▸ ha) h
  · exact heq

theorem map_replace_of_notMem {l : List Text} (h : name ∉ l) : l.map (replace name inner) = l := by
  have hid : l.map (replace name inner) = l.map id := List.map_congr_left fun t ht =>
    replace_of_ne fun heq => h (heq ▸ ht)
  rw [hid, List.map_id]

variable {nodes : List (Node (Op O) Text)}

/-- Where no node gives the name, the inputs are all of the nodes that can be renamed. -/
theorem map_inputs_eq (h : name ∉ defines nodes) :
    (nodes.map fun node => { node with inputs := node.inputs.map (replace name inner) }) =
      nodes.map (Node.rename (replace name inner)) := by
  refine List.map_congr_left fun n hn => ?_
  rw [Node.rename, map_replace_of_notMem fun ht => h (List.mem_flatMap.mpr ⟨n, hn, ht⟩)]

/-- Where no node reads the name, the outputs are. -/
theorem map_outputs_eq (h : ∀ n ∈ nodes, name ∉ n.inputs) :
    (nodes.map fun node => { node with outputs := node.outputs.map (replace name inner) }) =
      nodes.map (Node.rename (replace name inner)) := by
  refine List.map_congr_left fun n hn => ?_
  rw [Node.rename, map_replace_of_notMem (h n hn)]

theorem defines_map_inputs : defines (nodes.map fun node =>
    { node with inputs := node.inputs.map (replace name inner) }) = defines nodes := by
  rw [defines, defines, List.flatMap_map]

theorem defines_map_outputs : defines (nodes.map fun node =>
    { node with outputs := node.outputs.map (replace name inner) }) =
      (defines nodes).map (replace name inner) := by
  rw [defines, defines, List.flatMap_map, List.map_flatMap]

/-- One name of a list gets a new one, and is put at the end. -/
theorem perm_replace {l : List Text} (hnodup : l.Nodup) (hmem : name ∈ l) :
    l.map (replace name inner) ++ [name] ~ inner :: l := by
  obtain ⟨l₁, l₂, rfl⟩ := List.append_of_mem hmem
  have h := List.nodup_middle.mp hnodup
  rw [List.nodup_cons, List.mem_append, not_or] at h
  rw [List.map_append, List.map_cons, replace_self, map_replace_of_notMem h.1.1,
    map_replace_of_notMem h.1.2]
  calc l₁ ++ inner :: l₂ ++ [name]
    _ ~ name :: (l₁ ++ inner :: l₂) := List.perm_append_singleton _ _
    _ ~ name :: inner :: (l₁ ++ l₂) := List.perm_middle.cons _
    _ ~ inner :: name :: (l₁ ++ l₂) := List.Perm.swap _ _ _
    _ ~ inner :: (l₁ ++ name :: l₂) := List.perm_middle.symm.cons _

end Renaming

/-! ## The names of a wrapped graph -/

section Names

variable {g : Graph O T F} {input output : ValueInfo} {q : Quantisation F}

theorem mem_added {name t : Text} :
    t ∈ added name ↔ t = scaleName name ∨ t = zeroPointName name ∨ t = quantisedName name := by
  rw [added, List.mem_cons, List.mem_pair]

theorem defines_wrapInput :
    defines (wrapInput g input q).nodes = quantisedName input.name :: defines g.nodes :=
  congrArg (quantisedName input.name :: ·) defines_map_inputs

theorem defines_wrapOutput : defines (wrapOutput g output q).nodes =
    (defines g.nodes).map (replace output.name (quantisedName output.name)) ++ [output.name] := by
  rw [wrapOutput, defines, List.flatMap_append]
  exact congrArg (· ++ [output.name]) defines_map_outputs

theorem known_wrapInput (hin : g.inputs = [input]) : (wrapInput g input q).known =
    g.known ++ [scaleName input.name, zeroPointName input.name] := by
  rw [Graph.known, Graph.known, hin, wrapInput]
  dsimp only
  rw [List.map_append, ← List.append_assoc]
  rfl

theorem known_wrapOutput : (wrapOutput g output q).known =
    g.known ++ [scaleName output.name, zeroPointName output.name] := by
  rw [Graph.known, Graph.known, wrapOutput]
  dsimp only
  rw [List.map_append, ← List.append_assoc]
  rfl

theorem names_wrapInput (hin : g.inputs = [input]) :
    (wrapInput g input q).names ~ added input.name ++ g.names := by
  rw [Graph.names, Graph.names, known_wrapInput hin, defines_wrapInput, added]
  generalize scaleName input.name = s, zeroPointName input.name = z, quantisedName input.name = i
  calc g.known ++ [s, z] ++ i :: defines g.nodes
    _ = g.known ++ ([s, z, i] ++ defines g.nodes) := by rw [List.append_assoc]; rfl
    _ ~ [s, z, i] ++ defines g.nodes ++ g.known := List.perm_append_comm
    _ = [s, z, i] ++ (defines g.nodes ++ g.known) := List.append_assoc _ _ _
    _ ~ [s, z, i] ++ (g.known ++ defines g.nodes) := List.perm_append_comm.append_left _

theorem names_wrapOutput (hnodup : (defines g.nodes).Nodup) (hout : output.name ∈ defines g.nodes) :
    (wrapOutput g output q).names ~ added output.name ++ g.names := by
  rw [Graph.names, Graph.names, known_wrapOutput, defines_wrapOutput, added]
  generalize scaleName output.name = s, zeroPointName output.name = z
  calc g.known ++ [s, z] ++ ((defines g.nodes).map _ ++ [output.name])
    _ ~ g.known ++ [s, z] ++ quantisedName output.name :: defines g.nodes :=
      (perm_replace hnodup hout).append_left _
    _ = g.known ++ ([s, z, quantisedName output.name] ++ defines g.nodes) := by
      rw [List.append_assoc]
      rfl
    _ ~ [s, z, quantisedName output.name] ++ defines g.nodes ++ g.known := List.perm_append_comm
    _ = [s, z, quantisedName output.name] ++ (defines g.nodes ++ g.known) :=
      List.append_assoc _ _ _
    _ ~ [s, z, quantisedName output.name] ++ (g.known ++ defines g.nodes) :=
      List.perm_append_comm.append_left _

/-- No name is produced twice after all that are added, if and only if they are new. -/
theorem nodup_added_append {name : Text} {l : List Text} :
    (added name ++ l).Nodup ↔ l.Nodup ∧ ∀ t ∈ added name, t ∉ l := by
  rw [List.nodup_append]
  constructor
  · rintro ⟨-, hl, hne⟩
    exact ⟨hl, fun t ht htl => hne t ht t htl rfl⟩
  · rintro ⟨hl, hnew⟩
    exact ⟨added_nodup name, hl, fun t ht u hu heq => hnew t ht (heq ▸ hu)⟩

end Names

/-! ## What the names are bound to at the start -/

section Start

variable {g w : Graph O T F} {input value : ValueInfo} {q : Quantisation F}
variable {M : Meaning O T F V} {x : V} {t : Text}

theorem lookup_eq_none {B : Type} {l : List (Text × B)} (h : t ∉ l.map Prod.fst) :
    l.lookup t = none := by
  refine List.lookup_eq_none_iff.mpr fun p hp => ?_
  rw [bne_iff_ne]
  exact fun heq => h (List.mem_map.mpr ⟨p, hp, heq.symm⟩)

theorem mem_known_input (hin : g.inputs = [input]) : input.name ∈ g.known := by
  rw [Graph.known, hin]
  exact List.mem_cons_self

theorem start_eq_none (hin : g.inputs = [input]) (h : t ∉ g.known) :
    g.start M input.name x t = none := by
  have hne : t ≠ input.name := by
    rintro rfl
    exact h (mem_known_input hin)
  rw [Graph.start, if_neg hne, lookup_eq_none fun hmem => h (List.mem_append_right _ hmem)]
  rfl

/-- What was bound stays. -/
theorem start_of_notMem_added (hw : w.initializers = g.initializers ++ parameters value q)
    (h : t ∉ added value.name) : w.start M input.name x t = g.start M input.name x t := by
  have hnone : (parameters (T := T) value q).lookup t = none := by
    refine lookup_eq_none fun hmem => h (mem_added.mpr ?_)
    rcases List.mem_pair.mp hmem with heq | heq
    · exact Or.inl heq
    · exact Or.inr (Or.inl heq)
  rw [Graph.start, Graph.start, hw, List.lookup_append, hnone, Option.or_none]

/-- A new name is bound to its own tensor. -/
theorem start_of_notMem_known (hin : g.inputs = [input])
    (hw : w.initializers = g.initializers ++ parameters value q) (h : t ∉ g.known) :
    w.start M input.name x t = ((parameters value q).lookup t).map M.value := by
  have hne : t ≠ input.name := by
    rintro rfl
    exact h (mem_known_input hin)
  rw [Graph.start, if_neg hne, hw, List.lookup_append,
    lookup_eq_none fun hmem => h (List.mem_append_right _ hmem), Option.none_or]

variable (hin : g.inputs = [input]) (hnew : ∀ t ∈ added value.name, t ∉ g.names)
variable (hw : w.initializers = g.initializers ++ parameters value q)

include hin hnew hw

theorem start_scaleName :
    w.start M input.name x (scaleName value.name) = some (M.value (.scale q.1)) := by
  have hknown : scaleName value.name ∉ g.known := fun h =>
    hnew _ (mem_added.mpr (Or.inl rfl)) (List.mem_append_left _ h)
  rw [start_of_notMem_known hin hw hknown, parameters, List.lookup_cons_self]
  rfl

theorem start_zeroPointName : w.start M input.name x (zeroPointName value.name) =
    some (M.value (.zeroPoint value.elemType q.2)) := by
  have hknown : zeroPointName value.name ∉ g.known := fun h =>
    hnew _ (mem_added.mpr (Or.inr (Or.inl rfl))) (List.mem_append_left _ h)
  have hne : (zeroPointName value.name == scaleName value.name) = false :=
    beq_false_of_ne (scaleName_ne_zeroPointName _ _).symm
  rw [start_of_notMem_known hin hw hknown, parameters, List.lookup_cons, hne,
    List.lookup_cons_self]
  rfl

theorem start_quantisedName : w.start M input.name x (quantisedName value.name) = none := by
  have hknown : quantisedName value.name ∉ g.known := fun h =>
    hnew _ (mem_added.mpr (Or.inr (Or.inr rfl))) (List.mem_append_left _ h)
  rw [start_of_notMem_known hin hw hknown, lookup_eq_none]
  · rfl
  · intro h
    rcases List.mem_pair.mp h with heq | heq
    · exact quantisedName_ne_scaleName _ _ heq
    · exact quantisedName_ne_zeroPointName _ _ heq

end Start

/-! ## Quantising the input -/

section Input

variable {g : Graph O T F} {input output : ValueInfo} {q : Quantisation F}

theorem Graph.WellFormed.notMem_defines (hwf : g.WellFormed) {t : Text} (ht : t ∈ g.known) :
    t ∉ defines g.nodes := fun h => (List.nodup_append.mp hwf.nodup).2.2 t ht t h rfl

theorem nodes_wrapInput (hwf : g.WellFormed) (hin : g.inputs = [input]) :
    (wrapInput g input q).nodes =
      ⟨.quantizeLinear, [input.name, scaleName input.name, zeroPointName input.name],
        [quantisedName input.name]⟩ ::
      g.nodes.map (Node.rename (replace input.name (quantisedName input.name))) :=
  congrArg (_ :: ·) (map_inputs_eq (hwf.notMem_defines (mem_known_input hin)))

theorem wellFormed_wrapInput (hwf : g.WellFormed) (hin : g.inputs = [input])
    (hnew : ∀ t ∈ added input.name, t ∉ g.names) : (wrapInput g input q).WellFormed where
  nodup := (names_wrapInput hin).nodup_iff.mpr (nodup_added_append.mpr ⟨hwf.nodup, hnew⟩)
  ordered := by
    rw [nodes_wrapInput hwf hin, known_wrapInput hin]
    refine ⟨fun i hi => ?_, hwf.ordered.rename fun i hi => ?_⟩
    · rcases List.mem_cons.mp hi with rfl | hi
      · exact List.mem_append_left _ (mem_known_input hin)
      · exact List.mem_append_right _ hi
    · by_cases heq : i = input.name
      · rw [heq, replace_self]
        exact List.mem_append_right _ List.mem_cons_self
      · rw [replace_of_ne heq]
        exact List.mem_append_left _ (List.mem_append_left _ hi)
  output := fun o ho => (names_wrapInput hin).mem_iff.mpr
    (List.mem_append_right _ (hwf.output o ho))

variable {M : Meaning O T F V} {x : V}

/-- After the quantisation the nodes find what they found, under the new names. -/
theorem same_wrapInput (hnew : ∀ t ∈ added input.name, t ∉ g.names) (q : Quantisation F)
    (M : Meaning O T F V) (x v : V) :
    Same (replace input.name (quantisedName input.name)) {t | t ∈ g.names}
      (g.start M input.name v)
      (Function.update ((wrapInput g input q).start M input.name x) (quantisedName input.name)
        (some v)) := by
  intro i hi
  by_cases heq : i = input.name
  · rw [heq, replace_self, Function.update_self, Graph.start, if_pos rfl]
  · have hne : i ≠ quantisedName input.name := by
      rintro rfl
      exact hnew _ (mem_added.mpr (Or.inr (Or.inr rfl))) hi
    have hstart : (wrapInput g input q).start M input.name x i = g.start M input.name x i :=
      start_of_notMem_added rfl fun hmem => hnew i hmem hi
    rw [replace_of_ne heq, Function.update_of_ne hne, hstart, Graph.start, Graph.start,
      if_neg heq, if_neg heq]

theorem meaning_wrapInput (hwf : g.WellFormed) (hin : g.inputs = [input])
    (hout : g.outputs = [output]) (hnew : ∀ t ∈ added input.name, t ∉ g.names)
    (hne : output.name ≠ input.name) :
    (wrapInput g input q).meaning M x =
      (M.requantise .quantizeLinear input (some q) x).bind (g.meaning M) := by
  have hout₁ : (wrapInput g input q).outputs = [output] := hout
  have hin₁ : (wrapInput g input q).inputs = [{ input with elemType := floatType }] := rfl
  have hmeaning : (wrapInput g input q).meaning M x =
      (run M.sem ((wrapInput g input q).start M input.name x) (wrapInput g input q).nodes).bind
        fun env => env output.name := by
    rw [Graph.meaning, hin₁, hout₁]
  have hargs : [input.name, scaleName input.name, zeroPointName input.name].mapM
      ((wrapInput g input q).start M input.name x) =
        some [x, M.value (.scale q.1), M.value (.zeroPoint input.elemType q.2)] := by
    rw [List.mapM_cons, List.mapM_cons, List.mapM_cons, start_scaleName hin hnew rfl,
      start_zeroPointName hin hnew rfl, Graph.start, if_pos rfl]
    rfl
  rw [hmeaning, nodes_wrapInput hwf hin, run_cons, Node.run]
  dsimp only
  rw [hargs, Option.bind_some, Meaning.requantise, bindFrom]
  rcases M.sem .quantizeLinear [x, M.value (.scale q.1),
    M.value (.zeroPoint input.elemType q.2)] 0 with _ | v
  · rfl
  rw [Option.bind_some, Option.bind_some, bindFrom, Option.bind_some, Graph.meaning, hin, hout]
  dsimp only
  have hmem : output.name ∈ g.names := hwf.output output (hout ▸ List.mem_singleton_self _)
  have hinj : Set.InjOn (replace input.name (quantisedName input.name)) {t | t ∈ g.names} :=
    replace_injOn (hnew _ (mem_added.mpr (Or.inr (Or.inr rfl))))
  have hrel : Option.Rel (Same _ _) (run M.sem _ _) (run M.sem _ _) :=
    run_rename hwf.ordered (fun i hi => hi) hinj (same_wrapInput hnew q M x v)
  have hsame := bind_eq_of_rel hrel hmem
  rw [replace_of_ne hne] at hsame
  exact hsame

end Input

/-! ## Dequantising the output -/

section Output

variable {g : Graph O T F} {input output : ValueInfo} {q : Quantisation F}

theorem nodes_wrapOutput (hunread : ∀ n ∈ g.nodes, output.name ∉ n.inputs) :
    (wrapOutput g output q).nodes =
      g.nodes.map (Node.rename (replace output.name (quantisedName output.name))) ++
      [⟨.dequantizeLinear, [quantisedName output.name, scaleName output.name,
        zeroPointName output.name], [output.name]⟩] :=
  congrArg (· ++ _) (map_outputs_eq hunread)

theorem Graph.WellFormed.notMem_known (hwf : g.WellFormed) {t : Text} (ht : t ∈ defines g.nodes) :
    t ∉ g.known := fun h => hwf.notMem_defines h ht

theorem wellFormed_wrapOutput (hwf : g.WellFormed)
    (hnew : ∀ t ∈ added output.name, t ∉ g.names) (hproduced : output.name ∈ defines g.nodes)
    (hunread : ∀ n ∈ g.nodes, output.name ∉ n.inputs) :
    (wrapOutput g output q).WellFormed := by
  have hperm := names_wrapOutput (q := q) (List.nodup_append.mp hwf.nodup).2.1 hproduced
  refine ⟨hperm.nodup_iff.mpr (nodup_added_append.mpr ⟨hwf.nodup, hnew⟩), ?_, ?_⟩
  · rw [nodes_wrapOutput hunread, known_wrapOutput, ordered_append, defines_rename]
    refine ⟨hwf.ordered.rename fun i hi => ?_, ?_, trivial⟩
    · have hne : i ≠ output.name := by
        rintro rfl
        exact hwf.notMem_known hproduced hi
      rw [replace_of_ne hne]
      exact List.mem_append_left _ hi
    · intro i hi
      rcases List.mem_cons.mp hi with rfl | hi
      · refine List.mem_append_right _ (List.mem_map.mpr ⟨output.name, hproduced, ?_⟩)
        rw [replace_self]
      · exact List.mem_append_left _ (List.mem_append_right _ hi)
  · intro o ho
    rw [List.mem_singleton.mp ho]
    exact hperm.mem_iff.mpr (List.mem_append_right _ (List.mem_append_right _ hproduced))

variable {M : Meaning O T F V} {x : V}

/-- At the start the nodes find what they found, under the new names. -/
theorem same_wrapOutput (hwf : g.WellFormed) (hin : g.inputs = [input])
    (hnew : ∀ t ∈ added output.name, t ∉ g.names) (hproduced : output.name ∈ defines g.nodes)
    (q : Quantisation F) (M : Meaning O T F V) (x : V) :
    Same (replace output.name (quantisedName output.name)) {t | t ∈ g.names}
      (g.start M input.name x) ((wrapOutput g output q).start M input.name x) := by
  intro i hi
  by_cases heq : i = output.name
  · rw [heq, replace_self, start_quantisedName hin hnew rfl,
      start_eq_none hin (hwf.notMem_known hproduced)]
  · have hstart : (wrapOutput g output q).start M input.name x i = g.start M input.name x i :=
      start_of_notMem_added rfl fun hmem => hnew i hmem hi
    rw [replace_of_ne heq, hstart]

/-- What is added is not bound again. -/
theorem notMem_defines_rename (hnew : ∀ t ∈ added output.name, t ∉ g.names) {t : Text}
    (ht : t ∈ added output.name) (hne : t ≠ quantisedName output.name) :
    t ∉ defines (g.nodes.map (Node.rename (replace output.name (quantisedName output.name)))) := by
  rw [defines_rename]
  intro h
  obtain ⟨i, hi, heq⟩ := List.mem_map.mp h
  by_cases hi' : i = output.name
  · rw [hi', replace_self] at heq
    exact hne heq.symm
  · rw [replace_of_ne hi'] at heq
    exact hnew t ht (List.mem_append_right _ (heq ▸ hi))

theorem meaning_wrapOutput (hwf : g.WellFormed) (hin : g.inputs = [input])
    (hout : g.outputs = [output]) (hnew : ∀ t ∈ added output.name, t ∉ g.names)
    (hproduced : output.name ∈ defines g.nodes)
    (hunread : ∀ n ∈ g.nodes, output.name ∉ n.inputs) :
    (wrapOutput g output q).meaning M x =
      (g.meaning M x).bind (M.requantise .dequantizeLinear output (some q)) := by
  have hmeaning : (wrapOutput g output q).meaning M x =
      (run M.sem ((wrapOutput g output q).start M input.name x) (wrapOutput g output q).nodes).bind
        fun env => env output.name := by
    have hin₁ : (wrapOutput g output q).inputs = [input] := hin
    have hout₁ : (wrapOutput g output q).outputs = [{ output with elemType := floatType }] := rfl
    rw [Graph.meaning, hin₁, hout₁]
  have hinj : Set.InjOn (replace output.name (quantisedName output.name)) {t | t ∈ g.names} :=
    replace_injOn (hnew _ (mem_added.mpr (Or.inr (Or.inr rfl))))
  have hrel : Option.Rel (Same _ _) (run M.sem _ _) (run M.sem _ _) :=
    run_rename hwf.ordered (fun i hi => hi) hinj (same_wrapOutput hwf hin hnew hproduced q M x)
  have hsame := bind_eq_of_rel hrel (List.mem_append_right g.known hproduced)
  rw [replace_self] at hsame
  rw [hmeaning, nodes_wrapOutput hunread, run_append, Graph.meaning, hin, hout]
  dsimp only
  rw [← hsame]
  rcases hrun : run M.sem ((wrapOutput g output q).start M input.name x)
    (g.nodes.map (Node.rename (replace output.name (quantisedName output.name)))) with _ | env
  · rfl
  have hscale : env (scaleName output.name) = some (M.value (.scale q.1)) := by
    rw [run_of_notMem hrun (notMem_defines_rename hnew (mem_added.mpr (Or.inl rfl))
      (quantisedName_ne_scaleName _ _).symm), start_scaleName hin hnew rfl]
  have hzero : env (zeroPointName output.name) =
      some (M.value (.zeroPoint output.elemType q.2)) := by
    rw [run_of_notMem hrun (notMem_defines_rename hnew (mem_added.mpr (Or.inr (Or.inl rfl)))
      (quantisedName_ne_zeroPointName _ _).symm), start_zeroPointName hin hnew rfl]
  rw [Option.bind_some, Option.bind_some, run_cons, Node.run]
  dsimp only
  rw [List.mapM_cons, List.mapM_cons, List.mapM_cons, hscale, hzero]
  rcases env (quantisedName output.name) with _ | y
  · rfl
  show (((M.sem .dequantizeLinear [y, M.value (.scale q.1),
    M.value (.zeroPoint output.elemType q.2)] 0).bind _).bind _).bind _ = M.sem _ _ 0
  rcases M.sem .dequantizeLinear [y, M.value (.scale q.1),
    M.value (.zeroPoint output.elemType q.2)] 0 with _ | z
  · rfl
  · show Function.update env output.name (some z) output.name = some z
    rw [Function.update_self]

end Output

/-! ## What a well formed wrapping says of the graph -/

section Converse

variable {g : Graph O T F} {input output : ValueInfo} {q : Quantisation F}

theorem fits_of_nodup_wrapOutput (h : (wrapOutput g output q).names.Nodup)
    (hmem : output.name ∈ g.names) :
    output.name ∈ defines g.nodes ∧ g.names.Nodup ∧ ∀ t ∈ added output.name, t ∉ g.names := by
  have hsplit := h
  rw [Graph.names, known_wrapOutput, defines_wrapOutput, ← List.append_assoc] at hsplit
  obtain ⟨hleft, -, hlast⟩ := List.nodup_append.mp hsplit
  have hproduced : output.name ∈ defines g.nodes := by
    rcases List.mem_append.mp hmem with hknown | hdef
    · exact absurd rfl (hlast output.name (List.mem_append_left _ (List.mem_append_left _ hknown))
        output.name List.mem_cons_self)
    · exact hdef
  have hnodup : (defines g.nodes).Nodup := .of_map _ (List.nodup_append.mp hleft).2.1
  obtain ⟨hnames, hnew⟩ := nodup_added_append.mp
    ((names_wrapOutput hnodup hproduced).nodup_iff.mp h)
  exact ⟨hproduced, hnames, hnew⟩

theorem unread_of_wellFormed_wrapOutput (h : (wrapOutput g output q).WellFormed) :
    ∀ n ∈ g.nodes, output.name ∉ n.inputs := by
  intro n hn hread
  have hnodup := h.nodup
  rw [Graph.names, defines_wrapOutput, ← defines_map_outputs, ← List.append_assoc] at hnodup
  exact (List.nodup_append.mp hnodup).2.2 output.name
    ((ordered_append.mp h.ordered).1.read (List.mem_map_of_mem hn) hread) output.name
    List.mem_cons_self rfl

theorem start_isSome {M : Meaning O T F V} (hin : g.inputs = [input]) (x : V) {t : Text}
    (ht : t ∈ g.known) : (g.start M input.name x t).isSome := by
  rw [Graph.start]
  split_ifs with heq
  · rfl
  rw [Graph.known, hin] at ht
  rcases List.mem_append.mp ht with ht | ht
  · exact absurd (List.mem_singleton.mp ht) heq
  · obtain ⟨p, hp, rfl⟩ := List.mem_map.mp ht
    rw [Option.isSome_map]
    exact List.lookup_isSome_iff.mpr ⟨p, hp, beq_self_eq_true _⟩

/-- An output that is the input is what was given. -/
theorem meaning_of_eq {M : Meaning O T F V} {x y : V} (hin : g.inputs = [input])
    (hout : g.outputs = [output]) (heq : output.name = input.name)
    (hnot : input.name ∉ defines g.nodes) (h : g.meaning M x = some y) : y = x := by
  rw [Graph.meaning, hin, hout] at h
  obtain ⟨env, hrun, h⟩ := Option.bind_eq_some_iff.mp h
  rw [heq, run_of_notMem hrun hnot, Graph.start, if_pos rfl] at h
  exact (Option.some.inj h).symm

theorem meaning_isSome {M : Meaning O T F V} (hsem : ∀ op args k, (M.sem op args k).isSome)
    (hwf : g.WellFormed) (hin : g.inputs = [input]) (hout : g.outputs = [output])
    (heq : output.name = input.name) (x : V) : (g.meaning M x).isSome := by
  obtain ⟨env, hrun⟩ := Option.isSome_iff_exists.mp
    (run_isSome hsem hwf.ordered fun i hi => start_isSome hin x hi)
  have hval : env input.name = some x := by
    rw [run_of_notMem hrun (hwf.notMem_defines (mem_known_input hin)), Graph.start, if_pos rfl]
  rw [Graph.meaning, hin, hout]
  dsimp only
  rw [hrun, Option.bind_some, heq, hval]
  rfl

/-- A quantisation with nothing behind it changes what the graph gives. -/
theorem apart_of_meaning (hwf : g.WellFormed) (hin : g.inputs = [input])
    (hout : g.outputs = [output])
    (h : ∀ (V : Type) (M : Meaning O T F V) (x : V), (wrapInput g input q).meaning M x =
      (M.requantise .quantizeLinear input (some q) x).bind (g.meaning M)) :
    output.name ≠ input.name := by
  intro heq
  -- every operator gives `false`, and the input is `true`
  let M : Meaning O T F Bool := ⟨fun _ _ _ => some false, fun _ => false⟩
  have hnot := hwf.notMem_defines (mem_known_input hin)
  have hnot₁ : input.name ∉ defines (wrapInput g input q).nodes := by
    rw [defines_wrapInput, List.mem_cons, not_or]
    exact ⟨(ne_append_of_ne_nil (by decide)).symm, hnot⟩
  obtain ⟨y, hy⟩ := Option.isSome_iff_exists.mp
    (meaning_isSome (fun _ _ _ => rfl) hwf hin hout heq (false : Bool) : (g.meaning M false).isSome)
  have hboth : (wrapInput g input q).meaning M true = some y := (h Bool M true).trans hy
  have htrue : y = true := meaning_of_eq (rfl : (wrapInput g input q).inputs = [_]) hout heq
    hnot₁ hboth
  rw [meaning_of_eq hin hout heq hnot hy] at htrue
  exact Bool.false_ne_true htrue

end Converse

/-! ## Both ends -/

section Both

variable {g wrapped : Graph O T F} {input output : ValueInfo} {qIn qOut : Option (Quantisation F)}

theorem known_fixBatch (g : Graph O T F) : g.fixBatch.known = g.known := by
  rw [Graph.known, Graph.known, Graph.fixBatch, List.map_map]
  rfl

theorem wellFormed_fixBatch (g : Graph O T F) : g.fixBatch.WellFormed ↔ g.WellFormed := by
  have hnames : g.fixBatch.names = g.names := by
    rw [Graph.names, Graph.names, known_fixBatch]
    rfl
  constructor
  · rintro ⟨hnodup, hordered, houtput⟩
    rw [hnames] at hnodup houtput
    rw [known_fixBatch] at hordered
    exact ⟨hnodup, hordered, fun o ho => houtput o.fixBatch (List.mem_map_of_mem ho)⟩
  · rintro ⟨hnodup, hordered, houtput⟩
    refine ⟨hnames ▸ hnodup, (known_fixBatch g).symm ▸ hordered, fun o ho => ?_⟩
    obtain ⟨value, hvalue, rfl⟩ := List.mem_map.mp ho
    rw [hnames]
    exact houtput value hvalue

theorem meaning_fixBatch (M : Meaning O T F V) (x : V) :
    g.fixBatch.meaning M x = g.meaning M x := by
  rw [Graph.meaning, Graph.meaning, Graph.fixBatch]
  rcases g.inputs with _ | ⟨i, _ | ⟨i', is⟩⟩ <;> rcases g.outputs with _ | ⟨o, _ | ⟨o', os⟩⟩ <;> rfl

theorem wrapWith_ok {zeroPointError : ℕ → ℤ → Option Text} {wrap : Quantisation F → Graph O T F}
    {value : ValueInfo} {q : Option (Quantisation F)}
    (h : wrapWith zeroPointError wrap g value q = .ok wrapped) : wrapped = q.elim g wrap := by
  rcases q with _ | q
  · exact (Except.ok.inj h).symm
  · rw [wrapWith] at h
    rcases herr : zeroPointError value.elemType q.2 with _ | e
    · rw [herr] at h
      exact (Except.ok.inj h).symm
    · rw [herr] at h
      cases h

/-- The input first, then the output of what that gave. -/
theorem wrapIo_ok {zeroPointError : ℕ → ℤ → Option Text} (hin : g.inputs = [input])
    (hout : g.outputs = [output])
    {r : Option (Quantisation F) × Option (Quantisation F)}
    (h : wrapIo zeroPointError g qIn qOut = .ok (wrapped, r)) :
    wrapped = (qOut.elim (qIn.elim g (wrapInput g input))
      (wrapOutput (qIn.elim g (wrapInput g input)) output)).fixBatch := by
  rw [wrapIo, hin, hout] at h
  dsimp only at h
  rcases hfirst : wrapWith zeroPointError (wrapInput g input) g input qIn with e | g₁
  · rw [hfirst] at h
    cases h
  rcases hsecond : wrapWith zeroPointError (wrapOutput g₁ output) g₁ output qOut with e | g₂
  · rw [hfirst] at h
    change (wrapWith zeroPointError (wrapOutput g₁ output) g₁ output qOut).bind _ = _ at h
    rw [hsecond] at h
    cases h
  rw [hfirst] at h
  change (wrapWith zeroPointError (wrapOutput g₁ output) g₁ output qOut).bind _ = _ at h
  rw [hsecond] at h
  rw [← wrapWith_ok hfirst, ← wrapWith_ok hsecond]
  exact (congrArg Prod.fst (Except.ok.inj h)).symm

/-- Where the graph fits, the first wrapping keeps what the second one needs. -/
theorem Fits.wrapInput {q : Quantisation F} (h : Fits g input output (some q) qOut)
    (hwf : g.WellFormed) (hin : g.inputs = [input]) (hmem : output.name ∈ g.names) :
    Fits (wrapInput g input q) input output none qOut where
  new_in := fun hne => absurd rfl hne
  apart := fun hne => absurd rfl hne
  new_out := fun hne t ht hnames => by
    have happart := h.apart (Option.some_ne_none q)
    rcases List.mem_append.mp ((names_wrapInput hin).mem_iff.mp hnames) with hadded | hnames
    · exact added_disjoint happart ht hadded
    · exact h.new_out hne t ht hnames
  produced := fun hne => by
    rw [defines_wrapInput]
    exact List.mem_cons_of_mem _ (h.produced hne)
  unread := fun hne n hn hread => by
    have happart := h.apart (Option.some_ne_none q)
    have hnotAdded : output.name ∉ added input.name := fun hadded =>
      h.new_in (Option.some_ne_none q) _ hadded hmem
    rw [nodes_wrapInput hwf hin] at hn
    rcases List.mem_cons.mp hn with rfl | hn
    · rcases List.mem_cons.mp hread with heq | hread
      · exact happart heq
      · refine hnotAdded (mem_added.mpr ?_)
        exact (List.mem_pair.mp hread).imp_right Or.inl
    · obtain ⟨m, hm, rfl⟩ := List.mem_map.mp hn
      obtain ⟨i, hi, heq⟩ := List.mem_map.mp hread
      by_cases hname : i = input.name
      · rw [hname, replace_self] at heq
        exact hnotAdded (mem_added.mpr (Or.inr (Or.inr heq.symm)))
      · rw [replace_of_ne hname] at heq
        exact h.unread hne m hm (heq ▸ hi)

theorem correct_of_fits (hwf : g.WellFormed) (hin : g.inputs = [input])
    (hout : g.outputs = [output]) (h : Fits g input output qIn qOut) :
    Correct g (qOut.elim (qIn.elim g (wrapInput g input))
      (wrapOutput (qIn.elim g (wrapInput g input)) output)) input output qIn qOut := by
  have hmem : output.name ∈ g.names := hwf.output output (hout ▸ List.mem_singleton_self _)
  -- the output first, around any graph whose input is not quantised any more
  have hsecond : ∀ (g₁ : Graph O T F) (input₁ : ValueInfo), g₁.WellFormed → g₁.inputs = [input₁] →
      g₁.outputs = [output] → Fits g₁ input output none qOut →
      (qOut.elim g₁ (wrapOutput g₁ output)).WellFormed ∧
      ∀ (V : Type) (M : Meaning O T F V) (x : V), (qOut.elim g₁ (wrapOutput g₁ output)).meaning M x
        = (g₁.meaning M x).bind (M.requantise .dequantizeLinear output qOut) := by
    intro g₁ input₁ hwf₁ hin₁ hout₁ h₁
    rcases qOut with _ | q
    · refine ⟨hwf₁, fun V M x => ?_⟩
      show g₁.meaning M x = (g₁.meaning M x).bind some
      rw [Option.bind_fun_some]
    · have hnew := h₁.new_out (Option.some_ne_none q)
      have hproduced := h₁.produced (Option.some_ne_none q)
      have hunread := h₁.unread (Option.some_ne_none q)
      exact ⟨wellFormed_wrapOutput hwf₁ hnew hproduced hunread, fun V M x =>
        meaning_wrapOutput hwf₁ hin₁ hout₁ hnew hproduced hunread⟩
  rcases qIn with _ | q
  · obtain ⟨hwell, hmeaning⟩ := hsecond g input hwf hin hout h
    exact ⟨hwell, fun V M x => hmeaning V M x⟩
  · have hnew := h.new_in (Option.some_ne_none q)
    obtain ⟨hwell, hmeaning⟩ := hsecond (wrapInput g input q) _ (wellFormed_wrapInput hwf hin hnew)
      rfl hout (h.wrapInput hwf hin hmem)
    refine ⟨hwell, fun V M x => ?_⟩
    show (qOut.elim (wrapInput g input q) (wrapOutput (wrapInput g input q) output)).meaning M x = _
    rw [hmeaning, meaning_wrapInput hwf hin hout hnew (h.apart (Option.some_ne_none q)),
      Option.bind_assoc]

theorem fits_of_correct (hwf : g.WellFormed) (hin : g.inputs = [input])
    (hout : g.outputs = [output])
    (h : Correct g (qOut.elim (qIn.elim g (wrapInput g input))
      (wrapOutput (qIn.elim g (wrapInput g input)) output)) input output qIn qOut) :
    Fits g input output qIn qOut := by
  have hmem : output.name ∈ g.names := hwf.output output (hout ▸ List.mem_singleton_self _)
  have hinput := hwf.notMem_defines (mem_known_input hin)
  rcases qIn with _ | q
  · rcases qOut with _ | q'
    · exact ⟨fun hne => absurd rfl hne, fun hne => absurd rfl hne, fun hne => absurd rfl hne,
        fun hne => absurd rfl hne, fun hne => absurd rfl hne⟩
    · obtain ⟨hproduced, -, hnew⟩ := fits_of_nodup_wrapOutput h.well_formed.nodup hmem
      exact ⟨fun hne => absurd rfl hne, fun hne => absurd rfl hne, fun _ => hnew,
        fun _ => hproduced, fun _ => unread_of_wellFormed_wrapOutput h.well_formed⟩
  · have hincl : ∀ t ∈ g.names, t ∈ (wrapInput g input q).names := fun t ht =>
      (names_wrapInput hin).mem_iff.mpr (List.mem_append_right _ ht)
    rcases qOut with _ | q'
    · have hnew := (nodup_added_append.mp
        ((names_wrapInput hin).nodup_iff.mp h.well_formed.nodup)).2
      have hmeaning : ∀ (V : Type) (M : Meaning O T F V) (x : V),
          (wrapInput g input q).meaning M x =
            (M.requantise .quantizeLinear input (some q) x).bind (g.meaning M) := by
        intro V M x
        have hsome : (fun y => (g.meaning M y).bind some) = g.meaning M :=
          funext fun y => Option.bind_fun_some _
        rw [← hsome]
        exact h.meaning V M x
      exact ⟨fun _ => hnew, fun _ => apart_of_meaning hwf hin hout hmeaning,
        fun hne => absurd rfl hne, fun hne => absurd rfl hne, fun hne => absurd rfl hne⟩
    · obtain ⟨hproduced, hnodup, hnewOut⟩ :=
        fits_of_nodup_wrapOutput h.well_formed.nodup (hincl _ hmem)
      have hunread := unread_of_wellFormed_wrapOutput h.well_formed
      have hnew := (nodup_added_append.mp ((names_wrapInput hin).nodup_iff.mp hnodup)).2
      change output.name ∈ defines (wrapInput g input q).nodes at hproduced
      rw [defines_wrapInput] at hproduced
      have hdef : output.name ∈ defines g.nodes := by
        rcases List.mem_cons.mp hproduced with heq | hdef
        · exact absurd (heq ▸ hmem) (hnew _ (mem_added.mpr (Or.inr (Or.inr rfl))))
        · exact hdef
      have happart : output.name ≠ input.name := fun heq => hinput (heq ▸ hdef)
      refine ⟨fun _ => hnew, fun _ => happart, fun _ t ht hnames => hnewOut t ht (hincl t hnames),
        fun _ => hdef, fun _ n hn hread => ?_⟩
      refine hunread _ (List.mem_cons_of_mem _ (List.mem_map_of_mem hn)) ?_
      exact List.mem_map.mpr ⟨output.name, hread, replace_of_ne happart⟩

/-- Where there is one input and one output, what is returned is what it should be if and only if
the graph fits. -/
theorem wrapIo_correct_iff {zeroPointError : ℕ → ℤ → Option Text} (hwf : g.WellFormed)
    (hin : g.inputs = [input]) (hout : g.outputs = [output])
    {r : Option (Quantisation F) × Option (Quantisation F)}
    (h : wrapIo zeroPointError g qIn qOut = .ok (wrapped, r)) :
    Correct g wrapped input output qIn qOut ↔ Fits g input output qIn qOut := by
  rw [wrapIo_ok hin hout h]
  constructor
  · rintro ⟨hwell, hmeaning⟩
    refine fits_of_correct hwf hin hout ⟨(wellFormed_fixBatch _).mp hwell, fun V M x => ?_⟩
    rw [← meaning_fixBatch]
    exact hmeaning V M x
  · intro hfits
    obtain ⟨hwell, hmeaning⟩ := correct_of_fits hwf hin hout hfits
    refine ⟨(wellFormed_fixBatch _).mpr hwell, fun V M x => ?_⟩
    rw [meaning_fixBatch]
    exact hmeaning V M x

end Both

/-- Batches of four bytes. -/
def uint8Batch (name : Text) : ValueInfo := ⟨name, 2, [.param "batch".toList, .value 4]⟩

/-- One node between `image` and `scores`, which reads tensors too. -/
def oneNode (tensors : List Text) : Graph Text Unit ℕ where
  inputs := [uint8Batch "image".toList]
  outputs := [uint8Batch "scores".toList]
  initializers := tensors.map fun t => (t, .given ())
  nodes := [⟨.other "Mul".toList, "image".toList :: tensors, ["scores".toList]⟩]

theorem oneNode_wellFormed {tensors : List Text} (h : (oneNode tensors).names.Nodup) :
    (oneNode tensors).WellFormed where
  nodup := h
  ordered := by
    refine ⟨fun i hi => ?_, trivial⟩
    rcases List.mem_cons.mp hi with rfl | hi
    · exact List.mem_cons_self
    · refine List.mem_cons_of_mem _ (List.mem_map.mpr ⟨(i, .given ()), ?_, rfl⟩)
      exact List.mem_map_of_mem hi
  output := by
    intro o ho
    rw [List.mem_singleton.mp ho]
    exact List.mem_append_right _ List.mem_cons_self

theorem wrapIo_correct_iff_oneNode :
    ∃ wrapped r, wrapIo (fun _ _ => none) (oneNode ["weights".toList]) (some (1, 0)) (some (1, 0)) =
      .ok (wrapped, r) ∧
      Correct (oneNode ["weights".toList]) wrapped (uint8Batch "image".toList)
        (uint8Batch "scores".toList) (some (1, 0)) (some (1, 0)) := by
  have hwf : (oneNode ["weights".toList]).WellFormed := oneNode_wellFormed (by decide)
  refine ⟨_, _, rfl, (wrapIo_correct_iff hwf rfl rfl (rfl : wrapIo (fun _ _ => none) _ _ _ = _)).mpr
    ⟨fun _ => by decide, fun _ => by decide, fun _ => by decide, fun _ => by decide, ?_⟩⟩
  intro _ n hn
  rw [List.mem_singleton.mp hn]
  decide

/-- A tensor of the graph that is called `image_scale` is there twice. -/
theorem wrapIo_clash :
    (oneNode ["image_scale".toList]).WellFormed ∧
    ∃ wrapped r, wrapIo (fun _ _ => none) (oneNode ["image_scale".toList]) (some (1, 0)) none =
      .ok (wrapped, r) ∧
      ¬ Correct (oneNode ["image_scale".toList]) wrapped (uint8Batch "image".toList)
        (uint8Batch "scores".toList) (some (1, 0)) none := by
  refine ⟨oneNode_wellFormed (by decide), _, _, rfl, fun h => ?_⟩
  have hnodup := ((wellFormed_fixBatch _).mp h.well_formed).nodup
  have hnew := (nodup_added_append.mp ((names_wrapInput rfl).nodup_iff.mp hnodup)).2
  exact hnew _ (mem_added.mpr (Or.inl rfl)) (by decide)

end StudioWorker.Convert
