import Mathlib.Logic.Basic
import Mathlib.Data.List.Basic

/-!
# Lib.Fallible — computations that may fail

What a computation in `Except` that succeeds tells of its parts, and when all of a list gives a
value in `Option`.
-/

namespace Lib.Fallible

variable {α ε β : Type}

theorem ok_bind (a : α) (g : α → Except ε β) : (.ok a >>= g) = g a := rfl

theorem bind_eq_ok {x : Except ε α} {g : α → Except ε β} {r : β} (h : x >>= g = .ok r) :
    ∃ a, x = .ok a ∧ g a = .ok r := by
  rcases x with e | a
  · cases h
  · exact ⟨a, rfl, h⟩

theorem exists_of_toBool {x : Except ε α} (h : x.toBool = true) : ∃ a, x = .ok a := by
  rcases x with e | a
  · cases h
  · exact ⟨a, rfl⟩

theorem toOption_eq_some {x : Except ε α} {a : α} (h : x.toOption = some a) : x = .ok a := by
  rcases x with e | b
  · cases h
  · rw [Option.some_inj.mp h]

/-- All of a list succeeds exactly when each of it does. -/
theorem mapM_ok_iff {g : α → Except ε β} {as : List α} :
    (∃ bs, as.mapM g = .ok bs) ↔ ∀ a ∈ as, ∃ b, g a = .ok b := by
  induction as with
  | nil =>
    refine iff_of_true ⟨[], rfl⟩ fun a ha => absurd ha List.not_mem_nil
  | cons a as ih =>
    rw [List.forall_mem_cons, ← ih, List.mapM_cons]
    constructor
    · rintro ⟨bs, h⟩
      obtain ⟨b, hb, h⟩ := bind_eq_ok h
      obtain ⟨bs', hbs, -⟩ := bind_eq_ok h
      exact ⟨⟨b, hb⟩, bs', hbs⟩
    · rintro ⟨⟨b, hb⟩, bs, hbs⟩
      exact ⟨b :: bs, by rw [hb, hbs]; rfl⟩

theorem length_of_mapM_ok {g : α → Except ε β} {as : List α} {bs : List β}
    (h : as.mapM g = .ok bs) : bs.length = as.length := by
  induction as generalizing bs with
  | nil =>
    obtain rfl := Except.ok.inj h
    rfl
  | cons a as ih =>
    rw [List.mapM_cons] at h
    obtain ⟨b, -, h⟩ := bind_eq_ok h
    obtain ⟨bs', hbs, h⟩ := bind_eq_ok h
    obtain rfl := Except.ok.inj h
    exact congrArg Nat.succ (ih hbs)

theorem mem_of_mapM_ok {g : α → Except ε β} {as : List α} {bs : List β}
    (h : as.mapM g = .ok bs) {b : β} (hb : b ∈ bs) : ∃ a ∈ as, g a = .ok b := by
  induction as generalizing bs with
  | nil =>
    obtain rfl := Except.ok.inj h
    cases hb
  | cons a as ih =>
    rw [List.mapM_cons] at h
    obtain ⟨b', hb', h⟩ := bind_eq_ok h
    obtain ⟨bs', hbs', h⟩ := bind_eq_ok h
    obtain rfl := Except.ok.inj h
    rcases List.mem_cons.mp hb with rfl | hb
    · exact ⟨a, List.mem_cons_self, hb'⟩
    · obtain ⟨c, hc, hcb⟩ := ih hbs' hb
      exact ⟨c, List.mem_cons_of_mem a hc, hcb⟩

theorem mem_zip_of_mapM_ok {g : α → Except ε β} {as : List α} {bs : List β}
    (h : as.mapM g = .ok bs) {a : α} (ha : a ∈ as) : ∃ b, (a, b) ∈ as.zip bs ∧ g a = .ok b := by
  induction as generalizing bs with
  | nil => cases ha
  | cons c as ih =>
    rw [List.mapM_cons] at h
    obtain ⟨b, hb, h⟩ := bind_eq_ok h
    obtain ⟨bs', hbs, h⟩ := bind_eq_ok h
    obtain rfl := Except.ok.inj h
    rcases List.mem_cons.mp ha with rfl | ha
    · exact ⟨b, List.mem_cons_self, hb⟩
    · obtain ⟨d, hd, had⟩ := ih hbs ha
      exact ⟨d, List.mem_cons_of_mem _ hd, had⟩

theorem mapM_eq_ok_map {g : α → Except ε β} {f : α → β} {as : List α}
    (h : ∀ a ∈ as, g a = .ok (f a)) : as.mapM g = .ok (as.map f) := by
  induction as with
  | nil => rfl
  | cons a as ih =>
    rw [List.mapM_cons, h a List.mem_cons_self, ih fun b hb => h b (List.mem_cons_of_mem a hb)]
    rfl

/-- What stops a list is what stops one of it. -/
theorem mapM_error {g : α → Except ε β} {as : List α} {e : ε} (h : as.mapM g = .error e) :
    ∃ a ∈ as, g a = .error e := by
  induction as with
  | nil => cases h
  | cons a as ih =>
    rw [List.mapM_cons] at h
    cases ha : g a with
    | error e' =>
      rw [ha] at h
      obtain rfl := Except.error.inj h
      exact ⟨a, List.mem_cons_self, ha⟩
    | ok b =>
      rw [ha] at h
      cases has : as.mapM g with
      | error e' =>
        rw [has] at h
        obtain rfl := Except.error.inj h
        obtain ⟨a', ha', hstop⟩ := ih has
        exact ⟨a', List.mem_cons_of_mem a ha', hstop⟩
      | ok bs =>
        rw [has] at h
        cases h

/-- A fold whose steps each add one item adds one for each item it reads. -/
theorem length_of_foldlM {step : List β → α → Except ε (List β)}
    (hstep : ∀ {acc a acc'}, step acc a = .ok acc' → acc'.length = acc.length + 1) {as : List α}
    {acc acc' : List β} (h : as.foldlM step acc = .ok acc') :
    acc'.length = acc.length + as.length := by
  induction as generalizing acc with
  | nil =>
    obtain rfl := Except.ok.inj h
    rfl
  | cons a as ih =>
    rw [List.foldlM_cons] at h
    obtain ⟨next, hnext, h⟩ := bind_eq_ok h
    rw [ih h, hstep hnext, List.length_cons]
    omega

section Option

variable {f g : α → Option β} {as : List α}

theorem mapM_congr (h : ∀ a ∈ as, f a = g a) : as.mapM f = as.mapM g := by
  induction as with
  | nil => rfl
  | cons a as ih =>
    rw [List.mapM_cons, List.mapM_cons, h a List.mem_cons_self,
      ih fun b hb => h b (List.mem_cons_of_mem a hb)]

theorem mapM_eq_some_map {f : α → Option β} {g : α → β} (h : ∀ a ∈ as, f a = some (g a)) :
    as.mapM f = some (as.map g) := by
  induction as with
  | nil => rfl
  | cons a as ih =>
    rw [List.mapM_cons, h a List.mem_cons_self, ih fun b hb => h b (List.mem_cons_of_mem a hb)]
    rfl

theorem exists_mapM_eq_some (h : ∀ a ∈ as, ∃ b, f a = some b) : ∃ bs, as.mapM f = some bs := by
  induction as with
  | nil => exact ⟨[], rfl⟩
  | cons a as ih =>
    obtain ⟨b, hb⟩ := h a List.mem_cons_self
    obtain ⟨bs, hbs⟩ := ih fun c hc => h c (List.mem_cons_of_mem a hc)
    exact ⟨b :: bs, by rw [List.mapM_cons, hb, hbs]; rfl⟩

theorem exists_mapM_forall {l : List α} {P : β → Prop} (h : ∀ a ∈ l, ∃ b, f a = some b ∧ P b) :
    ∃ bs, l.mapM f = some bs ∧ bs.length = l.length ∧ ∀ b ∈ bs, P b := by
  induction l with
  | nil => exact ⟨[], rfl, rfl, fun b hb => absurd hb List.not_mem_nil⟩
  | cons a l ih =>
    obtain ⟨b, hb, hP⟩ := h a List.mem_cons_self
    obtain ⟨bs, hbs, hlength, hall⟩ := ih fun c hc => h c (List.mem_cons_of_mem a hc)
    refine ⟨b :: bs, by rw [List.mapM_cons, hb, hbs]; rfl, ?_, List.forall_mem_cons.mpr ⟨hP, hall⟩⟩
    rw [List.length_cons, List.length_cons, hlength]

theorem mapM_eq_some_iff {bs : List β} : as.mapM f = some bs ↔ as.map f = bs.map some := by
  induction as generalizing bs with
  | nil =>
    rw [List.mapM_nil, List.map_nil]
    exact ⟨fun h => by cases h; rfl, fun h => by rw [List.map_eq_nil_iff.mp h.symm]; rfl⟩
  | cons a as ih =>
    rw [List.mapM_cons, List.map_cons]
    constructor
    · intro h
      obtain ⟨b, hb, h⟩ := Option.bind_eq_some_iff.mp h
      obtain ⟨bs', hbs, h⟩ := Option.bind_eq_some_iff.mp h
      obtain rfl := Option.some_inj.mp h
      rw [hb, ih.mp hbs, List.map_cons]
    · intro h
      obtain ⟨b, bs', rfl, hb, hbs⟩ := List.map_eq_cons_iff.mp h.symm
      rw [← hb, ih.mpr hbs.symm]
      rfl

theorem exists_of_mem_mapM {bs : List β} (h : as.mapM f = some bs) {b : β} (hb : b ∈ bs) :
    ∃ a ∈ as, f a = some b :=
  List.mem_map.mp ((mapM_eq_some_iff.mp h).symm ▸ List.mem_map_of_mem hb)

theorem exists_mem_of_mapM {bs : List β} (h : as.mapM f = some bs) {a : α} (ha : a ∈ as) :
    ∃ b ∈ bs, f a = some b := by
  obtain ⟨b, hb, hab⟩ := List.mem_map.mp (mapM_eq_some_iff.mp h ▸ List.mem_map_of_mem (f := f) ha)
  exact ⟨b, hb, hab.symm⟩

/-- What is seen of each result, and is seen of what it comes from, is seen of them all. -/
theorem map_of_mapM {γ : Type*} {bs : List β} (h : as.mapM f = some bs) {seen : β → γ}
    {source : α → γ} (hseen : ∀ a ∈ as, ∀ b, f a = some b → seen b = source a) :
    bs.map seen = as.map source := by
  induction as generalizing bs with
  | nil =>
    obtain rfl := Option.some_inj.mp h
    rfl
  | cons a as ih =>
    rw [List.mapM_cons] at h
    obtain ⟨b, hb, h⟩ := Option.bind_eq_some_iff.mp h
    obtain ⟨bs', hbs, h⟩ := Option.bind_eq_some_iff.mp h
    obtain rfl := Option.some_inj.mp h
    rw [List.map_cons, List.map_cons, hseen a List.mem_cons_self b hb,
      ih hbs fun c hc => hseen c (List.mem_cons_of_mem a hc)]

/-- A loop whose every turn goes through, and keeps a property, goes through and keeps it. -/
theorem exists_foldlM_eq_some {σ : Type*} {l : List α} {g : σ → α → Option σ} {P : σ → Prop}
    {s : σ} (hs : P s) (h : ∀ a ∈ l, ∀ s, P s → ∃ t, g s a = some t ∧ P t) :
    ∃ t, l.foldlM g s = some t ∧ P t := by
  induction l generalizing s with
  | nil => exact ⟨s, rfl, hs⟩
  | cons a l ih =>
    obtain ⟨t, ht, hP⟩ := h a List.mem_cons_self s hs
    obtain ⟨u, hu, hP⟩ := ih hP fun b hb => h b (List.mem_cons_of_mem a hb)
    exact ⟨u, by rw [List.foldlM_cons, ht]; exact hu, hP⟩

theorem mapM_eq_none {a : α} (ha : a ∈ as) (h : f a = none) : as.mapM f = none := by
  induction as with
  | nil => cases ha
  | cons b as ih =>
    rw [List.mapM_cons]
    rcases List.mem_cons.mp ha with rfl | ha
    · rw [h]
      rfl
    · rw [ih ha]
      cases f b <;> rfl

end Option

end Lib.Fallible
