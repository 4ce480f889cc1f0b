import Mathlib.Data.List.Infix

/-!
# Lib.Search — cutting a text at the first needle, whole and piece by piece

An occurrence of a needle `s` in a text `t` is named by the text before it: `a ++ s <+: t`.

* `cut S t`: what precedes the earliest-starting needle of `S` in `t`.
* `streamCut S seen pieces`: the same, asked after each piece, of the text so far.
* `Quiet S r h`: no needle can begin in `r`, whatever is appended to `r ++ h`; so only `h` has to
  be searched.
* `splitOnce needle t`: what precedes the first occurrence of one needle, and what follows it.
-/

namespace Lib.Search

variable {α : Type*} [DecidableEq α]

/-- What precedes the first needle of `S` in a text. -/
def cut (S : List (List α)) : List α → Option (List α)
  | [] => if [] ∈ S then some [] else none
  | c :: cs => if ∃ s ∈ S, s <+: c :: cs then some [] else (cut S cs).map (c :: ·)

/-- Cutting a text that arrives in pieces, after `seen`: the cut of the text so far, at the first
piece where it has one. -/
def streamCut (S : List (List α)) : List α → List (List α) → Option (List α)
  | _, [] => none
  | seen, p :: ps =>
    match cut S (seen ++ p) with
    | some a => some a
    | none => streamCut S (seen ++ p) ps

/-! ## The cut of a whole text -/

variable {S : List (List α)}

/-- What precedes a cut is followed by a needle. -/
theorem cut_occurs : ∀ {t a : List α}, cut S t = some a → ∃ s ∈ S, a ++ s <+: t
  | [], a, h => by
    simp only [cut] at h
    split at h
    · rename_i hmem
      cases h
      exact ⟨[], hmem, List.prefix_rfl⟩
    · cases h
  | c :: cs, a, h => by
    simp only [cut] at h
    split at h
    · rename_i hs
      cases h
      exact hs
    · obtain ⟨a', ha', rfl⟩ := Option.map_eq_some_iff.mp h
      obtain ⟨s, hs, hp⟩ := cut_occurs ha'
      exact ⟨s, hs, List.cons_prefix_cons.mpr ⟨rfl, hp⟩⟩

/-- Nothing occurs before the cut, and a text without a cut has no occurrence. -/
theorem cut_first : ∀ {t a s : List α}, s ∈ S → a ++ s <+: t →
    ∃ b, cut S t = some b ∧ b <+: a
  | [], a, s, hs, hp => by
    obtain ⟨rfl, rfl⟩ := List.append_eq_nil_iff.mp (List.prefix_nil.mp hp)
    exact ⟨[], by simp [cut, hs], List.prefix_rfl⟩
  | c :: cs, a, s, hs, hp => by
    simp only [cut]
    by_cases h : ∃ s ∈ S, s <+: c :: cs
    · rw [if_pos h]
      exact ⟨[], rfl, List.nil_prefix⟩
    · rw [if_neg h]
      cases a with
      | nil => exact absurd ⟨s, hs, hp⟩ h
      | cons d a =>
        obtain ⟨rfl, hp'⟩ := List.cons_prefix_cons.mp hp
        have hp' : a ++ s <+: cs := hp'
        obtain ⟨b, hb, hba⟩ := cut_first hs hp'
        exact ⟨d :: b, by rw [hb]; rfl, List.cons_prefix_cons.mpr ⟨rfl, hba⟩⟩

theorem cut_eq_none {t : List α} : cut S t = none ↔ ∀ s ∈ S, ¬ s <:+: t := by
  constructor
  · rintro h s hs ⟨a, r, hr⟩
    obtain ⟨b, hb, -⟩ := cut_first (t := t) hs ⟨r, hr⟩
    rw [h] at hb
    cases hb
  · intro h
    cases hc : cut S t with
    | none => rfl
    | some a =>
      obtain ⟨s, hs, r, hr⟩ := cut_occurs hc
      exact absurd ⟨a, r, hr⟩ (h s hs)

theorem cut_prefix {t a : List α} (h : cut S t = some a) : a <+: t := by
  obtain ⟨s, -, hp⟩ := cut_occurs h
  exact (List.prefix_append a s).trans hp

/-- What precedes the cut has no needle in it. -/
theorem cut_clean {t a : List α} (hS : [] ∉ S) (h : cut S t = some a) {s : List α} (hs : s ∈ S) :
    ¬ s <:+: a := by
  rintro ⟨b, r, hr⟩
  have hb : b ++ s <+: t := (List.prefix_append (b ++ s) r).trans (hr ▸ cut_prefix h)
  obtain ⟨a', ha', hab⟩ := cut_first hs hb
  rw [h] at ha'
  cases ha'
  have hlen := hab.length_le
  have hr' := congrArg List.length hr
  have hpos : 0 < s.length := List.length_pos_iff.mpr fun he => hS (he ▸ hs)
  simp only [List.length_append] at hr'
  omega

/-! ## Searching only what could still hold a needle -/

/-- No needle begins in `r`, whatever is appended to `r ++ h`. -/
def Quiet (S : List (List α)) (r h : List α) : Prop :=
  ∀ a b, r = a ++ b → b ≠ [] → ∀ s ∈ S, ¬ b ++ h <+: s ∧ ¬ s <+: b ++ h

omit [DecidableEq α] in
theorem quiet_nil (h : List α) : Quiet S [] h := fun a b hab hb => by
  have := List.append_eq_nil_iff.mp hab.symm
  exact absurd this.2 hb

omit [DecidableEq α] in
/-- A quiet part stays quiet under what arrives. -/
theorem Quiet.append {r h : List α} (hq : Quiet S r h) (p : List α) : Quiet S r (h ++ p) := by
  intro a b hab hb s hs
  obtain ⟨h1, h2⟩ := hq a b hab hb s hs
  have hp : b ++ h <+: b ++ (h ++ p) := by
    rw [← List.append_assoc]
    exact List.prefix_append _ _
  refine ⟨fun h => h1 (hp.trans h), fun h => ?_⟩
  rcases Nat.le_total s.length (b ++ _).length with hl | hl
  · exact h2 (List.prefix_of_prefix_length_le h hp hl)
  · exact h1 (List.prefix_of_prefix_length_le hp h hl)

/-- With a quiet part in front, the cut is the cut of the rest. -/
theorem Quiet.cut {r h : List α} (hq : Quiet S r h) :
    Search.cut S (r ++ h) = (Search.cut S h).map (r ++ ·) := by
  induction r with
  | nil => simp
  | cons c r ih =>
    have hr : Quiet S r h := fun a b hab hb => hq (c :: a) b (by rw [hab]; rfl) hb
    have hc : ¬ ∃ s ∈ S, s <+: c :: (r ++ h) := by
      rintro ⟨s, hs, hp⟩
      exact (hq [] (c :: r) rfl (by simp) s hs).2 hp
    rw [List.cons_append, Search.cut, if_neg hc, ih hr, Option.map_map]
    rfl

omit [DecidableEq α] in
/-- Nothing of a needle begins where its first item is not. -/
theorem quiet_of_head {c : α} {n r : List α} (h : c ∉ r) (t : List α) : Quiet [c :: n] r t := by
  rintro a b rfl hb s hs
  rw [List.mem_singleton.mp hs]
  rcases b with _ | ⟨d, b⟩
  · exact absurd rfl hb
  have hne : d ≠ c := by
    rintro rfl
    exact h (by simp)
  refine ⟨fun hp => ?_, fun hp => ?_⟩
  · exact hne (List.cons_prefix_cons.mp hp).1
  · exact hne (List.cons_prefix_cons.mp hp).1.symm

/-- A part becomes quiet once no suffix of it could begin a needle that goes on behind it. -/
theorem Quiet.release {r h₁ h₂ : List α} (hq : Quiet S r (h₁ ++ h₂))
    (hc : Search.cut S (h₁ ++ h₂) = none)
    (hheld : ∀ a b, h₁ = a ++ b → b ≠ [] → ∀ s ∈ S, ¬ (b ++ h₂ <+: s ∧ b ++ h₂ ≠ s)) :
    Quiet S (r ++ h₁) h₂ := by
  intro a b hab hb s hs
  rcases List.append_eq_append_iff.mp hab with ⟨m, rfl, rfl⟩ | ⟨m, rfl, rfl⟩
  · have hno : ¬ s <+: b ++ h₂ := by
      rintro ⟨e, he⟩
      exact cut_eq_none.mp hc s hs ⟨m, e, by rw [List.append_assoc, List.append_assoc, he]⟩
    refine ⟨fun hp => hheld m b rfl hb s hs ⟨hp, fun he => hno (he ▸ List.prefix_rfl)⟩, hno⟩
  · have hrest := hq a m rfl
    cases m with
    | nil =>
      have hno : ¬ s <+: h₁ ++ h₂ := by
        rintro ⟨e, he⟩
        exact cut_eq_none.mp hc s hs ⟨[], e, by simpa using he⟩
      refine ⟨fun hp => hheld [] h₁ rfl (by simpa using hb) s hs ⟨by simpa using hp, ?_⟩,
        by simpa using hno⟩
      rintro rfl
      exact hno List.prefix_rfl
    | cons c m =>
      have h := hrest (by simp) s hs
      simpa only [List.append_assoc] using h

/-! ## A text split in two -/

/-- `str::split_once`: what precedes the first `needle` and what follows it. -/
def splitOnce (needle t : List α) : Option (List α × List α) :=
  (cut [needle] t).map fun a => (a, t.drop (a.length + needle.length))

theorem splitOnce_some {needle t a b : List α} (h : splitOnce needle t = some (a, b)) :
    t = a ++ needle ++ b ∧ cut [needle] t = some a := by
  obtain ⟨a', hc, he⟩ := Option.map_eq_some_iff.mp h
  obtain ⟨rfl, rfl⟩ := Prod.mk.inj he
  obtain ⟨s, hs, r, hr⟩ := cut_occurs hc
  obtain rfl := List.mem_singleton.mp hs
  refine ⟨?_, hc⟩
  have hlen : (a' ++ s).length = a'.length + s.length := List.length_append
  rw [← hr, ← hlen, List.drop_left]

/-- The text is cut at its first occurrence of the needle. -/
theorem splitOnce_of_first {needle a b : List α}
    (h : ∀ a', a' ++ needle <+: a ++ needle ++ b → a.length ≤ a'.length) :
    splitOnce needle (a ++ needle ++ b) = some (a, b) := by
  have hp : a ++ needle <+: a ++ needle ++ b := List.prefix_append _ _
  obtain ⟨a', hc, ha'⟩ := cut_first (List.mem_singleton_self needle) hp
  obtain ⟨s, hs, hp'⟩ := cut_occurs hc
  obtain rfl := List.mem_singleton.mp hs
  have heq : a' = a := ha'.eq_of_length (Nat.le_antisymm ha'.length_le (h a' hp'))
  subst heq
  have hlen : (a' ++ s).length = a'.length + s.length := List.length_append
  rw [splitOnce, hc, Option.map_some, ← hlen, List.drop_left]

theorem splitOnce_none {needle t : List α} : splitOnce needle t = none ↔ ¬ needle <:+: t := by
  rw [splitOnce, Option.map_eq_none_iff, cut_eq_none]
  simp

theorem splitOnce_of_prefix {needle t : List α} (h : needle <+: t) :
    ∃ b, splitOnce needle t = some ([], b) := by
  have hcut : cut [needle] t = some [] := by
    obtain ⟨a, ha, hle⟩ := cut_first (List.mem_singleton_self needle) (a := []) h
    rw [ha, List.prefix_nil.mp hle]
  exact ⟨_, by rw [splitOnce, hcut, Option.map_some]⟩

theorem splitOnce_cons {needle t : List α} {c : α} (h : ¬ needle <+: c :: t) :
    splitOnce needle (c :: t) = (splitOnce needle t).map fun ab => (c :: ab.1, ab.2) := by
  have hcut : cut [needle] (c :: t) = (cut [needle] t).map (c :: ·) := by
    rw [cut, if_neg (by simpa using h)]
  rw [splitOnce, hcut, splitOnce, Option.map_map, Option.map_map]
  refine congrArg (Option.map · _) (funext fun a => ?_)
  have hlen : (c :: a).length + needle.length = a.length + needle.length + 1 := by
    rw [List.length_cons]
    omega
  simp only [Function.comp_apply, hlen, List.drop_succ_cons]

theorem splitOnce_of_short {needle t : List α} (h : t.length < needle.length) :
    splitOnce needle t = none := by
  rw [splitOnce_none]
  intro hin
  exact absurd hin.length_le (Nat.not_le.mpr h)

/-- What arrives later does not move the first occurrence. -/
theorem splitOnce_append {needle t a b : List α} (h : splitOnce needle t = some (a, b)) (p : List α) :
    splitOnce needle (t ++ p) = some (a, b ++ p) := by
  obtain ⟨rfl, hc⟩ := splitOnce_some h
  rw [List.append_assoc]
  refine splitOnce_of_first fun a' ha' => ?_
  by_contra hlt
  have hin : a' ++ needle <+: a ++ needle ++ b := by
    refine List.prefix_of_prefix_length_le ha' ?_ ?_
    · rw [← List.append_assoc]
      exact List.prefix_append _ _
    · simp only [List.length_append]
      omega
  obtain ⟨a'', hc', hle⟩ := cut_first (List.mem_singleton_self needle) hin
  rw [hc] at hc'
  cases hc'
  exact hlt hle.length_le

/-- Nothing of the needle begins in `r`, so the text is split behind it. -/
theorem splitOnce_quiet {needle r t : List α} (h : Quiet [needle] r t) :
    splitOnce needle (r ++ t) = (splitOnce needle t).map fun ab => (r ++ ab.1, ab.2) := by
  rw [splitOnce, h.cut, splitOnce, Option.map_map, Option.map_map]
  refine congrArg (Option.map · _) (funext fun a => ?_)
  have hlen : (r ++ a).length + needle.length = r.length + (a.length + needle.length) := by
    rw [List.length_append, Nat.add_assoc]
  simp only [Function.comp_apply, hlen, List.drop_append]
  rw [List.drop_eq_nil_of_le (Nat.le_add_right _ _), Nat.add_sub_cancel_left, List.nil_append]

theorem splitOnce_singleton_none {c : α} {t : List α} : splitOnce [c] t = none ↔ c ∉ t := by
  rw [splitOnce_none]
  refine not_congr ⟨fun h => h.subset (List.mem_singleton_self c), fun h => ?_⟩
  obtain ⟨x, y, rfl⟩ := List.append_of_mem h
  exact ⟨x, y, by simp⟩

theorem splitOnce_singleton_some {c : α} {t a b : List α} :
    splitOnce [c] t = some (a, b) ↔ t = a ++ c :: b ∧ c ∉ a := by
  constructor
  · intro h
    obtain ⟨ht, hc⟩ := splitOnce_some h
    have hclean := cut_clean (by simp) hc (List.mem_singleton_self [c])
    refine ⟨by simpa using ht, fun hmem => hclean ?_⟩
    obtain ⟨x, y, rfl⟩ := List.append_of_mem hmem
    exact ⟨x, y, by simp⟩
  · rintro ⟨rfl, hc⟩
    have hfirst := @splitOnce_of_first _ _ [c] a b fun a' hp => ?_
    · simpa using hfirst
    · by_contra hlt
      have hin : a' ++ [c] <+: a := by
        refine List.prefix_of_prefix_length_le hp ?_ ?_
        · rw [List.append_assoc]
          exact List.prefix_append _ _
        · simp only [List.length_append, List.length_singleton]
          omega
      exact hc (hin.subset (by simp))

/-- Two texts cut at their first `c` are cut alike. -/
theorem append_cons_inj {c : α} {a a' b b' : List α} (ha : c ∉ a) (ha' : c ∉ a')
    (h : a ++ c :: b = a' ++ c :: b') : a = a' ∧ b = b' := by
  have hs : splitOnce [c] (a ++ c :: b) = some (a, b) := splitOnce_singleton_some.mpr ⟨rfl, ha⟩
  rw [h, splitOnce_singleton_some.mpr ⟨rfl, ha'⟩] at hs
  obtain ⟨h1, h2⟩ := Prod.mk.inj (Option.some.inj hs)
  exact ⟨h1.symm, h2.symm⟩

/-- A needle whose first item is nowhere else in it does not overlap itself. -/
theorem splitOnce_of_head {c : α} {n a : List α} (hc : c ∉ n) (ha : ¬ c :: n <:+: a) (b : List α) :
    splitOnce (c :: n) (a ++ c :: n ++ b) = some (a, b) := by
  refine splitOnce_of_first fun a' hp => ?_
  by_contra hlt
  obtain ⟨r, hr⟩ := hp
  rw [List.append_assoc, List.append_assoc] at hr
  rcases List.append_eq_append_iff.mp hr with ⟨m, rfl, hm⟩ | ⟨m, hm', -⟩
  · rcases m with _ | ⟨d, m⟩
    · simp at hlt
    obtain ⟨rfl, htail⟩ := List.cons.inj hm
    have htail : n ++ r = m ++ c :: (n ++ b) := htail
    rcases List.append_eq_append_iff.mp htail with ⟨x, rfl, -⟩ | ⟨x, rfl, hx⟩
    · exact ha ⟨a', x, by simp⟩
    · rcases x with _ | ⟨y, x⟩
      · exact ha ⟨a', [], by simp⟩
      · obtain ⟨rfl, -⟩ := List.cons.inj hx
        exact hc (by simp)
  · have hlen := congrArg List.length hm'
    rw [List.length_append] at hlen
    omega

/-! ## The cut of a text in pieces -/

/-- Where a stream is cut: at the first piece after which the text so far has a cut. -/
theorem streamCut_eq_some : ∀ {seen : List α} {ps : List (List α)} {a : List α},
    streamCut S seen ps = some a → ∃ qs p rs, ps = qs ++ p :: rs ∧
      (qs ≠ [] → cut S (seen ++ qs.flatten) = none) ∧ cut S (seen ++ (qs ++ [p]).flatten) = some a
  | seen, [], a, h => by cases h
  | seen, p :: ps, a, h => by
    simp only [streamCut] at h
    cases hc : cut S (seen ++ p) with
    | some b =>
      rw [hc] at h
      exact ⟨[], p, ps, rfl, fun h => absurd rfl h, by simpa [hc] using h⟩
    | none =>
      rw [hc] at h
      obtain ⟨qs, q, rs, rfl, h1, h2⟩ := streamCut_eq_some h
      refine ⟨p :: qs, q, rs, rfl, fun _ => ?_, by simpa [List.append_assoc] using h2⟩
      cases qs with
      | nil => simpa using hc
      | cons p' qs => simpa [List.append_assoc] using h1 (by simp)

theorem streamCut_eq_none : ∀ {seen : List α} {ps : List (List α)}, cut S seen = none →
    (streamCut S seen ps = none ↔ cut S (seen ++ ps.flatten) = none)
  | seen, [], h => by simp [streamCut, h]
  | seen, p :: ps, h => by
    simp only [streamCut]
    cases hc : cut S (seen ++ p) with
    | some b =>
      obtain ⟨s, hs, hp⟩ := cut_occurs hc
      obtain ⟨b', hb', -⟩ := cut_first (t := seen ++ (p :: ps).flatten) hs
        (hp.trans (by rw [List.flatten_cons, ← List.append_assoc]; exact List.prefix_append _ _))
      rw [hb']
      simp
    | none =>
      rw [List.flatten_cons, ← List.append_assoc]
      exact streamCut_eq_none hc

/-- An occurrence that both starts and ends no later than any other. -/
def Leads (S : List (List α)) (t a s : List α) : Prop :=
  s ∈ S ∧ a ++ s <+: t ∧ ∀ a' s', s' ∈ S → a' ++ s' <+: t →
    a.length ≤ a'.length ∧ (a ++ s).length ≤ (a' ++ s').length

theorem Leads.cut {t a s : List α} (h : Leads S t a s) : Search.cut S t = some a := by
  obtain ⟨hs, hp, hle⟩ := h
  obtain ⟨b, hb, hba⟩ := cut_first hs hp
  obtain ⟨s', hs', hp'⟩ := cut_occurs hb
  rw [hb, hba.eq_of_length (Nat.le_antisymm hba.length_le (hle b s' hs' hp').1)]

/-- With a leading occurrence every way to deliver the text is cut there. -/
theorem Leads.streamCut (hS : [] ∉ S) {a s : List α} {ps : List (List α)}
    (h : Leads S ps.flatten a s) : Search.streamCut S [] ps = some a := by
  have hnil : Search.cut S [] = none := by simp [Search.cut, hS]
  have hcut := h.cut
  obtain ⟨hs, hp, hle⟩ := h
  cases hc : Search.streamCut S [] ps with
  | none =>
    have := (streamCut_eq_none hnil).mp hc
    rw [List.nil_append, hcut] at this
    cases this
  | some b =>
    obtain ⟨qs, p, rs, rfl, -, hb⟩ := streamCut_eq_some hc
    rw [List.nil_append] at hb
    have hu : (qs ++ [p]).flatten <+: (qs ++ p :: rs).flatten := by
      simp only [List.flatten_append, List.flatten_cons, List.flatten_nil, List.append_nil]
      rw [← List.append_assoc]
      exact List.prefix_append _ _
    obtain ⟨s', hs', hp'⟩ := cut_occurs hb
    have hlen := hle b s' hs' (hp'.trans hu)
    have hup : a ++ s <+: (qs ++ [p]).flatten :=
      List.prefix_of_prefix_length_le hp hu (hlen.2.trans hp'.length_le)
    obtain ⟨b', hb', hba⟩ := cut_first hs hup
    rw [hb] at hb'
    cases hb'
    rw [hba.eq_of_length (Nat.le_antisymm hba.length_le hlen.1)]

omit [DecidableEq α] in
theorem flatten_singletons (t : List α) : (t.map ([·])).flatten = t := by
  rw [← List.flatMap_def, List.flatMap_singleton']

/-- When the text delivered element by element is cut where the whole text is, an occurrence
leads. -/
theorem leads_of_singletons (hS : [] ∉ S) {t a : List α} (hcut : Search.cut S t = some a)
    (h : Search.streamCut S [] (t.map ([·])) = some a) : ∃ s, Leads S t a s := by
  obtain ⟨qs, p, rs, hsplit, hbefore, hat⟩ := streamCut_eq_some h
  rw [List.nil_append] at hat
  obtain ⟨us, vs, rfl, rfl, hvs⟩ := List.map_eq_append_iff.mp hsplit
  obtain ⟨c, vs', rfl, rfl, rfl⟩ := List.map_eq_cons_iff.mp hvs
  have hus : (us.map ([·])).flatten = us := flatten_singletons us
  have hflat : (us.map ([·]) ++ [[c]]).flatten = us ++ [c] := by
    rw [List.flatten_append, hus]
    rfl
  have hpre : Search.cut S us = none := by
    cases us with
    | nil => simp [Search.cut, hS]
    | cons u us =>
      have h := hbefore (by simp)
      rwa [hus] at h
  rw [hflat] at hat
  obtain ⟨s, hs, hp⟩ := cut_occurs hat
  have hu : us ++ [c] <+: us ++ c :: vs' := by simp
  refine ⟨s, hs, hp.trans hu, fun a' s' hs' hp' => ⟨?_, ?_⟩⟩
  · obtain ⟨b, hb, hba⟩ := cut_first hs' hp'
    rw [hcut] at hb
    cases hb
    exact hba.length_le
  · by_contra hlt
    have hlen := hp.length_le
    have hend : (a' ++ s').length ≤ us.length := by
      simp only [List.length_append, List.length_singleton] at hlen hlt ⊢
      omega
    have hin := List.prefix_of_prefix_length_le hp' (List.prefix_append us (c :: vs')) hend
    obtain ⟨b, hb, -⟩ := cut_first hs' hin
    rw [hpre] at hb
    cases hb

end Lib.Search
