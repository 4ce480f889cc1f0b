import StudioWorker.Lib.System
import StudioWorker.SttStream.Session

/-!
# SttStream.Tls — the stream listener's identity over the daemon's starts
(`src/stt_stream/tls.rs`)

Each start loads the pair kept beside the config or makes a new one, its key written before its
certificate; it may be killed between any two steps, a read or a write may fail, and the files
belong to the operator too.

* `PairDir.step`: one system call of a start, its end, or someone else's change of a file.
* `Kept`: what an undisturbed run of starts has left in the files.
* `WriteOrder`: which pairs the two files can be of, wherever a start was cut off.
* `identity_kept`: what is served, over every run of starts.
-/

namespace StudioWorker.SttStream

open Lib Lib.System

/-! ## A start -/

/-- How PEM is read, and which certificate and key rustls takes together. -/
structure Pki (δ κ : Type) where
  /-- The text of the file is UTF-8 and holds a certificate. -/
  certificate : List UInt8 → Option δ
  privateKey : List UInt8 → Option κ
  /-- `server_config` succeeds. -/
  usable : δ → κ → Bool
  digest : δ → List UInt8

/-- What `create` has before it writes. -/
structure Made (κ : Type) where
  keyPem : List UInt8
  keyDer : κ
  certPem : List UInt8
deriving DecidableEq

structure StreamCertificate (δ κ : Type) where
  certPem : List UInt8
  certDer : δ
  keyDer : κ
  sha256 : Text
deriving DecidableEq

/-- `{b:02x}` of each byte. -/
def hex (bytes : List UInt8) : Text :=
  bytes.flatMap fun b => [(b.toNat / 16).digitChar, (b.toNat % 16).digitChar]

variable {δ κ : Type}

def StreamCertificate.fromParts (pki : Pki δ κ) (certPem : List UInt8) (keyDer : κ) :
    Option (StreamCertificate δ κ) :=
  match pki.certificate certPem with
  | some certDer =>
    if pki.usable certDer keyDer then some ⟨certPem, certDer, keyDer, hex (pki.digest certDer)⟩
    else none
  | none => none

/-- `load`, of what the two files hold. -/
def StreamCertificate.load (pki : Pki δ κ) (certPem keyPem : List UInt8) :
    Option (StreamCertificate δ κ) :=
  (pki.privateKey keyPem).bind fun keyDer => fromParts pki certPem keyDer

/-- Where a start is in `load_or_create`. -/
inductive StartPhase (κ : Type) where
  | idle
  /-- The certificate is not there; whether the key is comes next. -/
  | probing
  | loading
  | readCert (certPem : List UInt8)
  | creating
  | made (pair : Made κ)
  | wroteKey (pair : Made κ)
deriving DecidableEq

inductive StartEvent (κ : Type) where
  /-- `cert_path.exists()`; `misread` where looking at the file fails. -/
  | began (misread : Bool)
  /-- `key_path.exists()` -/
  | probedKey (misread : Bool)
  | readCert (misread : Bool)
  | readKey (misread : Bool)
  /-- The pair is generated and signed, or that fails. -/
  | generated (pair : Option (Made κ))
  /-- `write_atomic`: the file is replaced, or it fails and is not. -/
  | wrote (ok : Bool)
  | killed
  /-- Someone else replaces or removes a file. -/
  | touchedCert (pem : Option (List UInt8))
  | touchedKey (pem : Option (List UInt8))
deriving DecidableEq

/-- No read fails in it, and only the starts touch the files. -/
def StartEvent.quiet : StartEvent κ → Bool
  | began misread | probedKey misread | readCert misread | readKey misread => !misread
  | generated _ | wrote _ | killed => true
  | touchedCert _ | touchedKey _ => false

/-- The two files, the start that is under way, and what the starts have served so far. -/
structure PairDir (δ κ : Type) where
  cert : Option (List UInt8)
  key : Option (List UInt8)
  phase : StartPhase κ := .idle
  served : List (StreamCertificate δ κ) := []
deriving DecidableEq

variable {pki : Pki δ κ} {s t : PairDir δ κ}

namespace PairDir

/-- What reading a file gives. -/
def seen (file : Option (List UInt8)) (misread : Bool) : Option (List UInt8) :=
  if misread then none else file

/-- A start returns what came of it. -/
def finish (s : PairDir δ κ) (identity : Option (StreamCertificate δ κ)) : PairDir δ κ :=
  { s with phase := .idle, served := s.served ++ identity.toList }

def step (pki : Pki δ κ) : System (PairDir δ κ) (StartEvent κ)
  | s, .began misread =>
    match s.phase with
    | .idle =>
      some { s with phase := if (seen s.cert misread).isSome then .loading else .probing }
    | _ => none
  | s, .probedKey misread =>
    match s.phase with
    | .probing =>
      some { s with phase := if (seen s.key misread).isSome then .loading else .creating }
    | _ => none
  | s, .readCert misread =>
    match s.phase with
    | .loading =>
      match seen s.cert misread with
      | some certPem => some { s with phase := .readCert certPem }
      | none => some { s with phase := .creating }
    | _ => none
  | s, .readKey misread =>
    match s.phase with
    | .readCert certPem =>
      match (seen s.key misread).bind (StreamCertificate.load pki certPem) with
      | some identity => some (s.finish (some identity))
      | none => some { s with phase := .creating }
    | _ => none
  | s, .generated pair =>
    match s.phase, pair with
    | .creating, some pair => some { s with phase := .made pair }
    | .creating, none => some (s.finish none)
    | _, _ => none
  | s, .wrote ok =>
    match s.phase, ok with
    -- Key first.
    | .made pair, true => some { s with key := some pair.keyPem, phase := .wroteKey pair }
    | .wroteKey pair, true =>
      some ({ s with cert := some pair.certPem }.finish
        (StreamCertificate.fromParts pki pair.certPem pair.keyDer))
    | .made _, false | .wroteKey _, false => some (s.finish none)
    | _, _ => none
  | s, .killed =>
    match s.phase with
    | .idle => none
    | _ => some (s.finish none)
  | s, .touchedCert pem => some { s with cert := pem }
  | s, .touchedKey pem => some { s with key := pem }

/-! ## What a step does -/

theorem seen_eq_some {file : Option (List UInt8)} {misread : Bool} {pem : List UInt8} :
    seen file misread = some pem ↔ misread = false ∧ file = some pem := by
  cases misread <;> simp [seen]

theorem began_some {misread : Bool} (h : step pki s (.began misread) = some t) :
    s.phase = .idle ∧
      t = { s with phase := if (seen s.cert misread).isSome then .loading else .probing } := by
  unfold step at h
  dsimp only at h
  split at h
  next hphase => exact ⟨hphase, (Option.some.inj h).symm⟩
  next => cases h

theorem probedKey_some {misread : Bool} (h : step pki s (.probedKey misread) = some t) :
    s.phase = .probing ∧
      t = { s with phase := if (seen s.key misread).isSome then .loading else .creating } := by
  unfold step at h
  dsimp only at h
  split at h
  next hphase => exact ⟨hphase, (Option.some.inj h).symm⟩
  next => cases h

theorem readCert_some {misread : Bool} (h : step pki s (.readCert misread) = some t) :
    s.phase = .loading ∧
      ((∃ certPem, seen s.cert misread = some certPem ∧
          t = { s with phase := .readCert certPem }) ∨
        (seen s.cert misread = none ∧ t = { s with phase := .creating })) := by
  unfold step at h
  dsimp only at h
  split at h
  next hphase =>
    refine ⟨hphase, ?_⟩
    split at h
    next certPem hcert => exact .inl ⟨certPem, hcert, (Option.some.inj h).symm⟩
    next hcert => exact .inr ⟨hcert, (Option.some.inj h).symm⟩
  next => cases h

theorem readKey_some {misread : Bool} (h : step pki s (.readKey misread) = some t) :
    ∃ certPem, s.phase = .readCert certPem ∧
      ((∃ keyPem identity, seen s.key misread = some keyPem ∧
          StreamCertificate.load pki certPem keyPem = some identity ∧
          t = s.finish (some identity)) ∨
        ((seen s.key misread).bind (StreamCertificate.load pki certPem) = none ∧
          t = { s with phase := .creating })) := by
  unfold step at h
  dsimp only at h
  split at h
  next certPem hphase =>
    refine ⟨certPem, hphase, ?_⟩
    split at h
    next identity hload =>
      obtain ⟨keyPem, hkey, hload⟩ := Option.bind_eq_some_iff.mp hload
      exact .inl ⟨keyPem, identity, hkey, hload, (Option.some.inj h).symm⟩
    next hload => exact .inr ⟨hload, (Option.some.inj h).symm⟩
  next => cases h

theorem generated_some {pair : Option (Made κ)} (h : step pki s (.generated pair) = some t) :
    s.phase = .creating ∧
      ((∃ made, pair = some made ∧ t = { s with phase := .made made }) ∨ t = s.finish none) := by
  unfold step at h
  dsimp only at h
  split at h
  next made hphase => exact ⟨hphase, .inl ⟨made, rfl, (Option.some.inj h).symm⟩⟩
  next hphase => exact ⟨hphase, .inr (Option.some.inj h).symm⟩
  next => cases h

theorem wrote_some {ok : Bool} (h : step pki s (.wrote ok) = some t) :
    (∃ pair, s.phase = .made pair ∧ ok = true ∧
        t = { s with key := some pair.keyPem, phase := .wroteKey pair }) ∨
      (∃ pair, s.phase = .wroteKey pair ∧ ok = true ∧
        t = { s with cert := some pair.certPem }.finish
          (StreamCertificate.fromParts pki pair.certPem pair.keyDer)) ∨
      (ok = false ∧ t = s.finish none) := by
  unfold step at h
  dsimp only at h
  split at h
  next pair hphase => exact .inl ⟨pair, hphase, rfl, (Option.some.inj h).symm⟩
  next pair hphase => exact .inr (.inl ⟨pair, hphase, rfl, (Option.some.inj h).symm⟩)
  next => exact .inr (.inr ⟨rfl, (Option.some.inj h).symm⟩)
  next => exact .inr (.inr ⟨rfl, (Option.some.inj h).symm⟩)
  next => cases h

theorem killed_some (h : step pki s .killed = some t) : t = s.finish none := by
  unfold step at h
  dsimp only at h
  split at h
  · cases h
  · exact (Option.some.inj h).symm

@[simp] theorem finish_cert (identity : Option (StreamCertificate δ κ)) :
    (s.finish identity).cert = s.cert := rfl
@[simp] theorem finish_key (identity : Option (StreamCertificate δ κ)) :
    (s.finish identity).key = s.key := rfl
@[simp] theorem finish_phase (identity : Option (StreamCertificate δ κ)) :
    (s.finish identity).phase = .idle := rfl
@[simp] theorem finish_served (identity : Option (StreamCertificate δ κ)) :
    (s.finish identity).served = s.served ++ identity.toList := rfl

end PairDir

/-! ## What is served -/

/-- Certificate and key go together, and the pin is the certificate's. -/
def StreamCertificate.Valid (pki : Pki δ κ) (p : StreamCertificate δ κ) : Prop :=
  pki.certificate p.certPem = some p.certDer ∧ pki.usable p.certDer p.keyDer = true ∧
    p.sha256 = hex (pki.digest p.certDer)

theorem StreamCertificate.fromParts_some {certPem : List UInt8} {keyDer : κ}
    {p : StreamCertificate δ κ} (h : fromParts pki certPem keyDer = some p) :
    p.certPem = certPem ∧ p.Valid pki := by
  unfold fromParts at h
  split at h
  next certDer hcert =>
    by_cases husable : pki.usable certDer keyDer = true
    · rw [if_pos husable, Option.some.injEq] at h
      subst h
      exact ⟨rfl, hcert, husable, rfl⟩
    · rw [if_neg husable] at h
      cases h
  next => cases h

theorem StreamCertificate.load_some {certPem keyPem : List UInt8} {p : StreamCertificate δ κ}
    (h : load pki certPem keyPem = some p) : p.certPem = certPem ∧ p.Valid pki := by
  obtain ⟨keyDer, -, h⟩ := Option.bind_eq_some_iff.mp h
  exact fromParts_some h

theorem StreamCertificate.load_of_made {pair : Made κ}
    (h : pki.privateKey pair.keyPem = some pair.keyDer) :
    load pki pair.certPem pair.keyPem = fromParts pki pair.certPem pair.keyDer := by
  rw [load, h, Option.bind_some]

namespace PairDir

theorem step_valid {e : StartEvent κ} (hs : ∀ p ∈ s.served, p.Valid pki)
    (h : step pki s e = some t) : ∀ p ∈ t.served, p.Valid pki := by
  have hadd : ∀ identity : Option (StreamCertificate δ κ),
      (∀ p, identity = some p → p.Valid pki) →
      ∀ p ∈ s.served ++ identity.toList, p.Valid pki := by
    intro identity hid p hp
    rcases List.mem_append.mp hp with hp | hp
    · exact hs p hp
    · exact hid p (Option.mem_toList.mp hp)
  have hnone : ∀ p ∈ (s.finish none).served, p.Valid pki := hadd none fun p hp => by cases hp
  cases e with
  | began misread =>
    obtain ⟨-, rfl⟩ := began_some h
    exact hs
  | probedKey misread =>
    obtain ⟨-, rfl⟩ := probedKey_some h
    exact hs
  | readCert misread =>
    obtain ⟨-, ⟨_, -, rfl⟩ | ⟨-, rfl⟩⟩ := readCert_some h
    · exact hs
    · exact hs
  | readKey misread =>
    obtain ⟨_, -, ⟨keyPem, identity, -, hload, rfl⟩ | ⟨-, rfl⟩⟩ := readKey_some h
    · refine hadd (some identity) fun p hp => ?_
      exact Option.some.inj hp ▸ (StreamCertificate.load_some hload).2
    · exact hs
  | generated pair =>
    obtain ⟨-, ⟨_, -, rfl⟩ | rfl⟩ := generated_some h
    · exact hs
    · exact hnone
  | wrote ok =>
    obtain ⟨_, -, -, rfl⟩ | ⟨pair, -, -, rfl⟩ | ⟨-, rfl⟩ := wrote_some h
    · exact hs
    · exact hadd _ fun p hp => (StreamCertificate.fromParts_some hp).2
    · exact hnone
  | killed => exact killed_some h ▸ hnone
  | touchedCert pem => exact Option.some.inj h ▸ hs
  | touchedKey pem => exact Option.some.inj h ▸ hs

/-! ## Starts nobody disturbs -/

/-- The files load as this identity. -/
def Holds (pki : Pki δ κ) (s : PairDir δ κ) (p : StreamCertificate δ κ) : Prop :=
  ∃ keyPem, s.cert = some p.certPem ∧ s.key = some keyPem ∧
    StreamCertificate.load pki p.certPem keyPem = some p

theorem Holds.unique {p q : StreamCertificate δ κ} (hp : s.Holds pki p) (hq : s.Holds pki q) :
    q = p := by
  obtain ⟨keyPem, hcert, hkey, hload⟩ := hp
  obtain ⟨keyPem', hcert', hkey', hload'⟩ := hq
  rw [hcert, Option.some.injEq] at hcert'
  rw [hkey, Option.some.injEq] at hkey'
  rw [← hcert', ← hkey', hload, Option.some.injEq] at hload'
  exact hload'.symm

/-- No start that is in one of these phases makes a new pair. -/
def Reading : StartPhase κ → Prop
  | .idle | .loading | .readCert _ => True
  | .probing | .creating | .made _ | .wroteKey _ => False

/-- Once an identity is served the files hold it, and no start is about to replace it. -/
structure Kept (pki : Pki δ κ) (s : PairDir δ κ) : Prop where
  read : ∀ certPem, s.phase = .readCert certPem → s.cert = some certPem
  pair : ∀ m, s.phase = .made m ∨ s.phase = .wroteKey m → pki.privateKey m.keyPem = some m.keyDer
  key : ∀ m, s.phase = .wroteKey m → s.key = some m.keyPem
  held : ∀ p ∈ s.served, s.Holds pki p ∧ Reading s.phase

/-- The key `create` writes is read back as the one it has. -/
def Genuine (pki : Pki δ κ) : StartEvent κ → Prop
  | .generated (some pair) => pki.privateKey pair.keyPem = some pair.keyDer
  | _ => True

theorem Kept.of_idle (hidle : t.phase = .idle) (hheld : ∀ p ∈ t.served, t.Holds pki p) :
    t.Kept pki where
  read := fun c hc => by
    rw [hidle] at hc
    cases hc
  pair := fun m hm => by rcases hm with hm | hm <;> · rw [hidle] at hm; cases hm
  key := fun m hm => by
    rw [hidle] at hm
    cases hm
  held := fun p hp => ⟨hheld p hp, by rw [hidle]; trivial⟩

theorem Kept.stopped (hs : s.Kept pki) : (s.finish none).Kept pki :=
  .of_idle rfl fun p hp => (hs.held p ((List.append_nil s.served) ▸ hp)).1

theorem step_kept {e : StartEvent κ} (hs : s.Kept pki) (hq : e.quiet = true)
    (hgen : Genuine pki e) (h : step pki s e = some t) : t.Kept pki := by
  -- Nothing has been served when a start makes a new pair.
  have hfresh : ¬ Reading s.phase → ∀ p, p ∉ s.served := fun hno p hp => hno (hs.held p hp).2
  cases e with
  | began misread =>
    obtain ⟨hphase, rfl⟩ := began_some h
    have hread : misread = false := by simpa [StartEvent.quiet] using hq
    refine ⟨fun c hc => ?_, fun m hm => ?_, fun m hm => ?_, fun p hp => ⟨(hs.held p hp).1, ?_⟩⟩
    · dsimp only at hc
      split at hc <;> cases hc
    · rcases hm with hm | hm <;> · dsimp only at hm; split at hm <;> cases hm
    · dsimp only at hm
      split at hm <;> cases hm
    · obtain ⟨⟨_, hcert, -, -⟩, -⟩ := hs.held p hp
      rw [hread, hcert]
      trivial
  | probedKey misread =>
    obtain ⟨hphase, rfl⟩ := probedKey_some h
    refine ⟨fun c hc => ?_, fun m hm => ?_, fun m hm => ?_, fun p hp => ?_⟩
    · dsimp only at hc
      split at hc <;> cases hc
    · rcases hm with hm | hm <;> · dsimp only at hm; split at hm <;> cases hm
    · dsimp only at hm
      split at hm <;> cases hm
    · exact absurd hp (hfresh (by rw [hphase]; exact id) p)
  | readCert misread =>
    have hread : misread = false := by simpa [StartEvent.quiet] using hq
    obtain ⟨hphase, ⟨certPem, hseen, rfl⟩ | ⟨hseen, rfl⟩⟩ := readCert_some h
    · refine ⟨fun c hc => ?_, fun m hm => ?_, fun m hm => ?_,
        fun p hp => ⟨(hs.held p hp).1, trivial⟩⟩
      · cases hc
        exact (seen_eq_some.mp hseen).2
      · rcases hm with hm | hm <;> cases hm
      · cases hm
    · refine ⟨fun c hc => ?_, fun m hm => ?_, fun m hm => ?_, fun p hp => ?_⟩
      · cases hc
      · rcases hm with hm | hm <;> cases hm
      · cases hm
      · obtain ⟨⟨_, hcert, -, -⟩, -⟩ := hs.held p hp
        rw [hread, hcert] at hseen
        cases hseen
  | readKey misread =>
    have hread : misread = false := by simpa [StartEvent.quiet] using hq
    obtain ⟨certPem, hphase, ⟨keyPem, identity, hseen, hload, rfl⟩ | ⟨hseen, rfl⟩⟩ := readKey_some h
    · have hcert := hs.read certPem hphase
      obtain ⟨hpem, -⟩ := StreamCertificate.load_some hload
      refine ⟨fun c hc => ?_, fun m hm => ?_, fun m hm => ?_, fun p hp => ⟨?_, trivial⟩⟩
      · cases hc
      · rcases hm with hm | hm <;> cases hm
      · cases hm
      · rcases List.mem_append.mp hp with hp | hp
        · exact (hs.held p hp).1
        · obtain rfl := Option.some.inj (Option.mem_toList.mp hp)
          exact ⟨keyPem, hpem ▸ hcert, (seen_eq_some.mp hseen).2, hpem.symm ▸ hload⟩
    · refine ⟨fun c hc => ?_, fun m hm => ?_, fun m hm => ?_, fun p hp => ?_⟩
      · cases hc
      · rcases hm with hm | hm <;> cases hm
      · cases hm
      · obtain ⟨⟨keyPem, hcert, hkey, hload⟩, -⟩ := hs.held p hp
        rw [hs.read certPem hphase, Option.some.injEq] at hcert
        rw [hread, hkey, hcert, show seen (some keyPem) false = some keyPem from rfl,
          Option.bind_some, hload] at hseen
        cases hseen
  | generated pair =>
    obtain ⟨hphase, ⟨made, rfl, rfl⟩ | rfl⟩ := generated_some h
    · refine ⟨fun c hc => ?_, fun m hm => ?_, fun m hm => ?_, fun p hp => ?_⟩
      · cases hc
      · rcases hm with hm | hm
        · cases hm
          exact hgen
        · cases hm
      · cases hm
      · exact absurd hp (hfresh (by rw [hphase]; exact id) p)
    · exact hs.stopped
  | wrote ok =>
    obtain ⟨pair, hphase, -, rfl⟩ | ⟨pair, hphase, -, rfl⟩ | ⟨-, rfl⟩ := wrote_some h
    · refine ⟨fun c hc => ?_, fun m hm => ?_, fun m hm => ?_, fun p hp => ?_⟩
      · cases hc
      · rcases hm with hm | hm
        · cases hm
        · cases hm
          exact hs.pair pair (.inl hphase)
      · cases hm
        rfl
      · exact absurd hp (hfresh (by rw [hphase]; exact id) p)
    · refine ⟨fun c hc => ?_, fun m hm => ?_, fun m hm => ?_, fun p hp => ⟨?_, trivial⟩⟩
      · cases hc
      · rcases hm with hm | hm <;> cases hm
      · cases hm
      · rcases List.mem_append.mp hp with hp | hp
        · exact absurd hp (hfresh (by rw [hphase]; exact id) p)
        · have hmade := Option.mem_toList.mp hp
          obtain ⟨hpem, -⟩ := StreamCertificate.fromParts_some hmade
          refine ⟨pair.keyPem, congrArg some hpem.symm, hs.key pair hphase, ?_⟩
          rw [hpem, StreamCertificate.load_of_made (hs.pair pair (.inr hphase))]
          exact hmade
    · exact hs.stopped
  | killed => exact killed_some h ▸ hs.stopped
  | touchedCert pem => cases hq
  | touchedKey pem => cases hq

/-! ## Starts that are cut off -/

def StartEvent.touches : StartEvent κ → Bool
  | .touchedCert _ | .touchedKey _ => true
  | _ => false

/-- The pairs whose key has been written, the newest last. -/
def noteKey (past : List (Made κ)) (s : PairDir δ κ) : StartEvent κ → List (Made κ)
  | .wrote true =>
    match s.phase with
    | .made pair => past ++ [pair]
    | _ => past
  | _ => past

/-- The key is of the newest such pair, the certificate of one of them or the first one. -/
structure WriteOrder (d : PairDir δ κ) (past : List (Made κ)) (s : PairDir δ κ) : Prop where
  first : past = [] → s.cert = d.cert ∧ s.key = d.key
  newest : ∀ older pair, past = older ++ [pair] → s.key = some pair.keyPem
  cert : s.cert = d.cert ∨ ∃ pair ∈ past, s.cert = some pair.certPem

theorem WriteOrder.of_eq {d : PairDir δ κ} {past : List (Made κ)} (hs : WriteOrder d past s)
    (hcert : t.cert = s.cert) (hkey : t.key = s.key) : WriteOrder d past t where
  first := fun h => ⟨hcert.trans (hs.first h).1, hkey.trans (hs.first h).2⟩
  newest := fun older pair h => hkey.trans (hs.newest older pair h)
  cert := by rw [hcert]; exact hs.cert

theorem step_files {e : StartEvent κ} (h : step pki s e = some t) (hw : ∀ ok, e ≠ .wrote ok)
    (ht : StartEvent.touches e = false) : t.cert = s.cert ∧ t.key = s.key := by
  cases e with
  | began misread =>
    obtain ⟨-, rfl⟩ := began_some h
    exact ⟨rfl, rfl⟩
  | probedKey misread =>
    obtain ⟨-, rfl⟩ := probedKey_some h
    exact ⟨rfl, rfl⟩
  | readCert misread =>
    obtain ⟨-, ⟨_, -, rfl⟩ | ⟨-, rfl⟩⟩ := readCert_some h
    · exact ⟨rfl, rfl⟩
    · exact ⟨rfl, rfl⟩
  | readKey misread =>
    obtain ⟨_, -, ⟨_, _, -, -, rfl⟩ | ⟨-, rfl⟩⟩ := readKey_some h
    · exact ⟨rfl, rfl⟩
    · exact ⟨rfl, rfl⟩
  | generated pair =>
    obtain ⟨-, ⟨_, -, rfl⟩ | rfl⟩ := generated_some h
    · exact ⟨rfl, rfl⟩
    · exact ⟨rfl, rfl⟩
  | wrote ok => exact absurd rfl (hw ok)
  | killed => exact killed_some h ▸ ⟨rfl, rfl⟩
  | touchedCert pem => cases ht
  | touchedKey pem => cases ht

/-- Only a start's own writes and its way to them change the phases behind a key's write. -/
theorem wroteKey_of_step {e : StartEvent κ} {pair : Made κ} (h : step pki s e = some t)
    (hw : ∀ ok, e ≠ .wrote ok) (hphase : t.phase = .wroteKey pair) :
    s.phase = .wroteKey pair := by
  cases e with
  | began misread =>
    obtain ⟨-, rfl⟩ := began_some h
    dsimp only at hphase
    split at hphase <;> cases hphase
  | probedKey misread =>
    obtain ⟨-, rfl⟩ := probedKey_some h
    dsimp only at hphase
    split at hphase <;> cases hphase
  | readCert misread => obtain ⟨-, ⟨_, -, rfl⟩ | ⟨-, rfl⟩⟩ := readCert_some h <;> cases hphase
  | readKey misread =>
    obtain ⟨_, -, ⟨_, _, -, -, rfl⟩ | ⟨-, rfl⟩⟩ := readKey_some h <;> cases hphase
  | generated pair => obtain ⟨-, ⟨_, -, rfl⟩ | rfl⟩ := generated_some h <;> cases hphase
  | wrote ok => exact absurd rfl (hw ok)
  | killed =>
    obtain rfl := killed_some h
    cases hphase
  | touchedCert pem =>
    obtain rfl := Option.some.inj h
    exact hphase
  | touchedKey pem =>
    obtain rfl := Option.some.inj h
    exact hphase

theorem step_writeOrder {d : PairDir δ κ} {past : List (Made κ)} {e : StartEvent κ}
    (hs : WriteOrder d past s ∧ ∀ pair, s.phase = .wroteKey pair → pair ∈ past)
    (he : StartEvent.touches e = false) (h : step pki s e = some t) :
    WriteOrder d (noteKey past s e) t ∧
      ∀ pair, t.phase = .wroteKey pair → pair ∈ noteKey past s e := by
  obtain ⟨horder, hwrote⟩ := hs
  by_cases hw : ∃ ok, e = .wrote ok
  · obtain ⟨ok, rfl⟩ := hw
    obtain ⟨pair, hphase, rfl, rfl⟩ | ⟨pair, hphase, rfl, rfl⟩ | ⟨rfl, rfl⟩ := wrote_some h
    · have hnote : noteKey past s (.wrote true) = past ++ [pair] := by simp [noteKey, hphase]
      rw [hnote]
      refine ⟨⟨fun hnil => ?_, fun older newest hpast => ?_, ?_⟩, fun other hother => ?_⟩
      · exact absurd hnil (by simp)
      · rw [(List.append_inj' hpast rfl).2 |> List.singleton_injective.eq_iff.mp]
      · rcases horder.cert with hcert | ⟨old, hold, hcert⟩
        · exact .inl hcert
        · exact .inr ⟨old, List.mem_append_left _ hold, hcert⟩
      · cases hother
        exact List.mem_append_right _ (List.mem_singleton_self _)
    · have hnote : noteKey past s (.wrote true) = past := by simp [noteKey, hphase]
      rw [hnote]
      refine ⟨⟨fun hnil => ?_, horder.newest, .inr ⟨pair, hwrote pair hphase, rfl⟩⟩, fun _ h => ?_⟩
      · have hmem := hwrote pair hphase
        rw [hnil] at hmem
        cases hmem
      · cases h
    · exact ⟨horder.of_eq rfl rfl, fun _ h => by cases h⟩
  · have hne : ∀ ok, e ≠ .wrote ok := fun ok h => hw ⟨ok, h⟩
    have hnote : noteKey past s e = past := by
      cases e with
      | wrote ok => exact absurd rfl (hne ok)
      | _ => rfl
    obtain ⟨hcert, hkey⟩ := step_files h hne he
    rw [hnote]
    exact ⟨horder.of_eq hcert hkey, fun pair hp => hwrote pair (wroteKey_of_step h hne hp)⟩

/-! ## A start that goes well -/

/-- Every read and write succeeds, and this pair is what is generated if one has to be. -/
def GoesWell (pair : Made κ) : StartEvent κ → Prop
  | .began misread | .probedKey misread | .readCert misread | .readKey misread => misread = false
  | .generated made => made = some pair
  | .wrote ok => ok = true
  | .killed | .touchedCert _ | .touchedKey _ => False

/-- From here a start can go well, and then serves an identity the files hold. -/
def EndsServed (pki : Pki δ κ) (pair : Made κ) (s : PairDir δ κ) : Prop :=
  ∃ es t p, (∀ e ∈ es, GoesWell pair e) ∧ run (step pki) s es = some t ∧ t.phase = .idle ∧
    t.served = s.served ++ [p] ∧ t.Holds pki p

theorem EndsServed.after {pair : Made κ} {e : StartEvent κ} (h : step pki s e = some t)
    (he : GoesWell pair e) (hserved : t.served = s.served) (ht : EndsServed pki pair t) :
    EndsServed pki pair s := by
  obtain ⟨es, u, p, hes, hrun, hidle, hu, hholds⟩ := ht
  exact ⟨e :: es, u, p, List.forall_mem_cons.mpr ⟨he, hes⟩, run_cons_some.mpr ⟨t, h, hrun⟩, hidle,
    hserved ▸ hu, hholds⟩

theorem EndsServed.last {pair : Made κ} {e : StartEvent κ} {p : StreamCertificate δ κ}
    (h : step pki s e = some (t.finish (some p))) (he : GoesWell pair e)
    (hserved : t.served = s.served) (hholds : t.Holds pki p) : EndsServed pki pair s :=
  ⟨[e], t.finish (some p), p, List.forall_mem_singleton.mpr he, run_cons_some.mpr ⟨_, h, rfl⟩, rfl,
    hserved ▸ rfl, hholds⟩

section GoesWell

variable {pair : Made κ} {identity : StreamCertificate δ κ}
  (hkey : pki.privateKey pair.keyPem = some pair.keyDer)
  (hmade : StreamCertificate.fromParts pki pair.certPem pair.keyDer = some identity)
include hkey hmade

theorem creating_serves (hphase : s.phase = .creating) : EndsServed pki pair s := by
  have hpem := (StreamCertificate.fromParts_some hmade).1
  have hgenerated : step pki s (.generated (some pair)) = some { s with phase := .made pair } := by
    simp [step, hphase]
  refine .after hgenerated rfl rfl (.after (e := .wrote true) rfl rfl rfl ?_)
  refine .last (e := .wrote true)
    (t := ⟨some pair.certPem, some pair.keyPem, .wroteKey pair, s.served⟩)
    (congrArg (fun id => some (finish _ id)) hmade) rfl rfl ?_
  refine ⟨pair.keyPem, congrArg some hpem.symm, rfl, ?_⟩
  rw [hpem, StreamCertificate.load_of_made hkey]
  exact hmade

theorem loading_serves (hphase : s.phase = .loading) : EndsServed pki pair s := by
  obtain hcert | ⟨certPem, hcert⟩ := Option.eq_none_or_eq_some s.cert
  · have hread : step pki s (.readCert false) = some { s with phase := .creating } := by
      simp [step, hphase, seen, hcert]
    exact .after hread rfl rfl (creating_serves hkey hmade rfl)
  · have hread : step pki s (.readCert false) = some { s with phase := .readCert certPem } := by
      simp [step, hphase, seen, hcert]
    refine .after hread rfl rfl ?_
    obtain hload | ⟨p, hload⟩ :=
      Option.eq_none_or_eq_some (s.key.bind (StreamCertificate.load pki certPem))
    · have hkeyRead : step pki { s with phase := .readCert certPem } (.readKey false) =
          some { s with phase := .creating } := by
        simp [step, seen, hload]
      exact .after hkeyRead rfl rfl (creating_serves hkey hmade rfl)
    · have hkeyRead : step pki { s with phase := .readCert certPem } (.readKey false) =
          some (s.finish (some p)) := by
        simp [step, seen, hload, finish]
      obtain ⟨keyPem, hpem, hload⟩ := Option.bind_eq_some_iff.mp hload
      obtain ⟨hcertPem, -⟩ := StreamCertificate.load_some hload
      exact .last hkeyRead rfl rfl ⟨keyPem, hcertPem.symm ▸ hcert, hpem, hcertPem.symm ▸ hload⟩

theorem start_serves (hphase : s.phase = .idle) : EndsServed pki pair s := by
  obtain hcert | ⟨certPem, hcert⟩ := Option.eq_none_or_eq_some s.cert
  · have hbegan : step pki s (.began false) = some { s with phase := .probing } := by
      simp [step, hphase, seen, hcert]
    refine .after hbegan rfl rfl ?_
    obtain hkeyFile | ⟨keyPem, hkeyFile⟩ := Option.eq_none_or_eq_some s.key
    · have hprobed : step pki { s with phase := .probing } (.probedKey false) =
          some { s with phase := .creating } := by
        simp [step, seen, hkeyFile]
      exact .after hprobed rfl rfl (creating_serves hkey hmade rfl)
    · have hprobed : step pki { s with phase := .probing } (.probedKey false) =
          some { s with phase := .loading } := by
        simp [step, seen, hkeyFile]
      exact .after hprobed rfl rfl (loading_serves hkey hmade rfl)
  · have hbegan : step pki s (.began false) = some { s with phase := .loading } := by
      simp [step, hphase, seen, hcert]
    exact .after hbegan rfl rfl (loading_serves hkey hmade rfl)

end GoesWell

/-! ## Over every run of starts -/

/-- Whatever the starts do, are told or are cut off in: every identity served is a certificate with
its key, and while no read fails and nobody else touches the files it is one and the same, the one
the files hold; the key on disk is never older than the certificate; and the next start that goes
well serves what the files then hold. -/
theorem identity_kept {d t : PairDir δ κ} {past : List (Made κ)} {es : List (StartEvent κ)}
    (hidle : d.phase = .idle) (hnone : d.served = []) (hgen : ∀ e ∈ es, Genuine pki e)
    (hrun : run (noting (step pki) noteKey) (d, []) es = some (t, past)) :
    (∀ p ∈ t.served, p.Valid pki) ∧
      ((∀ e ∈ es, e.quiet = true) → ∀ p ∈ t.served, t.Holds pki p ∧ ∀ q ∈ t.served, q = p) ∧
      ((∀ e ∈ es, StartEvent.touches e = false) → WriteOrder d past t) ∧
      ∀ pair identity, pki.privateKey pair.keyPem = some pair.keyDer →
        StreamCertificate.fromParts pki pair.certPem pair.keyDer = some identity →
        t.phase = .idle → EndsServed pki pair t := by
  have hplain := run_of_noting hrun
  refine ⟨?_, fun hquiet p hp => ?_, fun htouch => ?_, fun pair identity hkey hmade hphase => ?_⟩
  · refine run_invariant (I := fun s => ∀ p ∈ s.served, p.Valid pki)
      (fun s e u => step_valid) ?_ hplain
    simp [hnone]
  · have hkept : t.Kept pki := by
      have hstep : ∀ s e u, Kept pki s → (e.quiet = true ∧ Genuine pki e) →
          step pki s e = some u → Kept pki u := fun s e u hs hok => step_kept hs hok.1 hok.2
      refine along_invariant hstep es d t ?_ ?_ hplain
      · exact .of_idle hidle fun p hp => by
          rw [hnone] at hp
          cases hp
      · exact along_of_forall fun e he => ⟨hquiet e he, hgen e he⟩
    exact ⟨(hkept.held p hp).1, fun q hq => (hkept.held p hp).1.unique (hkept.held q hq).1⟩
  · have hstep : ∀ (s : PairDir δ κ × List (Made κ)) (e : StartEvent κ)
        (u : PairDir δ κ × List (Made κ)),
        (WriteOrder d s.2 s.1 ∧ ∀ pair, s.1.phase = .wroteKey pair → pair ∈ s.2) →
        StartEvent.touches e = false → noting (step pki) noteKey s e = some u →
        WriteOrder d u.2 u.1 ∧ ∀ pair, u.1.phase = .wroteKey pair → pair ∈ u.2 := by
      intro s e u hs he hu
      obtain ⟨h1, h2⟩ := noting_some.mp hu
      rw [h2]
      exact step_writeOrder hs he h1
    refine (along_invariant hstep es (d, []) (t, past) ⟨⟨fun _ => ⟨rfl, rfl⟩, ?_, .inl rfl⟩, ?_⟩
      (along_of_forall htouch) hrun).1
    · intro older pair h
      exact absurd h (by simp)
    · intro pair h
      rw [hidle] at h
      cases h
  · exact start_serves hkey hmade hphase

/-- Files of one letter, `C` or `K`, and the number of the pair they are of. -/
def numberedPki : Pki UInt8 UInt8 where
  certificate
    | [67, n] => some n
    | _ => none
  privateKey
    | [75, n] => some n
    | _ => none
  usable cert key := cert == key
  digest cert := [cert]

def numberedPair (n : UInt8) : Made UInt8 := ⟨[75, n], n, [67, n]⟩

/-- The first start is killed between its writes, the second makes another pair, the third loads
it. -/
def cutOffStarts : List (StartEvent UInt8) :=
  [.began false, .probedKey false, .generated (some (numberedPair 171)), .wrote true, .killed,
   .began false, .probedKey false, .readCert false, .generated (some (numberedPair 18)),
     .wrote true, .wrote true,
   .began false, .readCert false, .readKey false]

theorem identity_kept_cut_off :
    ∃ s : PairDir UInt8 UInt8 × List (Made UInt8),
      run (noting (step numberedPki) noteKey) (⟨none, none, .idle, []⟩, []) cutOffStarts = some s ∧
        s.1.served.map (fun p => p.sha256) = ["12".toList, "12".toList] ∧
        ∀ p ∈ s.1.served, p.Valid numberedPki ∧ s.1.Holds numberedPki p :=
  exists_run (P := fun s => s.1.served.map (fun p => p.sha256) = ["12".toList, "12".toList])
    (by decide) fun s hs hpins => by
      have hgen : ∀ e ∈ cutOffStarts, Genuine numberedPki e := by
        simp [cutOffStarts, Genuine, numberedPki, numberedPair]
      obtain ⟨hvalid, hkept, -⟩ := identity_kept rfl rfl hgen hs
      exact ⟨hpins, fun p hp => ⟨hvalid p hp, (hkept (by decide) p hp).1⟩⟩

end PairDir

end StudioWorker.SttStream
