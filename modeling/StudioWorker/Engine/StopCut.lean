import StudioWorker.Engine.StopHold

/-!
# Engine.StopCut — what a generation streams, and how it depends on the pieces

The stop is looked for after each piece, so among stops that overlap the one that is complete
first wins, not the one that starts first.  The result is the same for every way to cut a text into
pieces exactly when no stop occurs in it or one occurrence both starts and ends first
(`outcome_split_iff`).
-/

namespace StudioWorker.Engine.StopHold

open Lib.Search

theorem mem_nonempty {stops : List Str} {s : Str} :
    s ∈ stops.filter (· ≠ []) ↔ s ∈ stops ∧ s ≠ [] := by
  simp

theorem nil_notMem_nonempty (stops : List Str) : [] ∉ stops.filter (· ≠ []) := by
  simp

/-- Where a stream of pieces is cut, the cut is followed by a stop and holds none. -/
theorem streamCut_sound {stops pieces : List Str} {t : Str}
    (h : streamCut (stops.filter (· ≠ [])) [] pieces = some t) :
    (∃ s ∈ stops, s ≠ [] ∧ t ++ s <+: pieces.flatten) ∧
      ∀ s ∈ stops, s ≠ [] → ¬ s <:+: t := by
  obtain ⟨qs, p, rs, rfl, -, hcut⟩ := streamCut_eq_some h
  rw [List.nil_append] at hcut
  obtain ⟨s, hs, hp⟩ := cut_occurs hcut
  obtain ⟨hs, hne⟩ := mem_nonempty.mp hs
  refine ⟨⟨s, hs, hne, hp.trans ?_⟩, fun s' hs' hne' => ?_⟩
  · simp only [List.flatten_append, List.flatten_cons, List.flatten_nil, List.append_nil]
    rw [← List.append_assoc]
    exact List.prefix_append _ _
  · exact cut_clean (nil_notMem_nonempty stops) hcut (mem_nonempty.mpr ⟨hs', hne'⟩)

theorem streamCut_none {stops pieces : List Str}
    (h : streamCut (stops.filter (· ≠ [])) [] pieces = none) :
    ∀ s ∈ stops, s ≠ [] → ¬ s <:+: pieces.flatten := by
  have hnil : cut (stops.filter (· ≠ [])) [] = none := by simp [cut]
  have hcut := (streamCut_eq_none hnil).mp h
  rw [List.nil_append] at hcut
  exact fun s hs hne => cut_eq_none.mp hcut s (mem_nonempty.mpr ⟨hs, hne⟩)

/-- A generation slices at character boundaries only and streams its text: the input up to the
stop that was matched, with no stop in it and none of it ever taken back. -/
theorem generate_streams_text (stops pieces : List Str) :
    ∃ rs h, generate stops pieces = some (rs, h) ∧ rs.flatten = h.text ∧
      h.text <+: pieces.flatten ∧ (∀ s ∈ stops, s ≠ [] → ¬ s <:+: h.text) ∧
      ((∀ s ∈ stops, s ≠ [] → ¬ s <:+: pieces.flatten) → h.text = pieces.flatten) ∧
      (∀ n, h.stopped = some n →
        n = h.text.len ∧ ∃ s ∈ stops, s ≠ [] ∧ h.text ++ s <+: pieces.flatten) ∧
      ∀ ps, ps <+: pieces → ∃ rs₀ h₀, pushAll (new stops) ps = some (rs₀, h₀) ∧
        rs₀ <+: rs ∧ rs₀.flatten <+: h.text := by
  obtain ⟨rs, h, hgen, htext, hres⟩ := generate_spec stops pieces
  have hmoment : ∀ ps, ps <+: pieces → ∃ rs₀ h₀, pushAll (new stops) ps = some (rs₀, h₀) ∧
      rs₀ <+: rs ∧ rs₀.flatten <+: h.text := by
    rintro ps ⟨qs, rfl⟩
    obtain ⟨rs₀, h₀, h0, -⟩ := pushAll_spec ps (new_live stops)
    rw [generate, pushAll_append, h0] at hgen
    simp only [Option.bind_eq_bind, Option.bind_some, Option.bind_assoc] at hgen
    obtain ⟨⟨rs₁, h₁⟩, -, hgen⟩ := Option.bind_eq_some_iff.mp hgen
    obtain ⟨⟨r, h₂⟩, -, hgen⟩ := Option.bind_eq_some_iff.mp hgen
    cases hgen
    rw [← htext, List.append_assoc, List.flatten_append]
    exact ⟨rs₀, h₀, h0, List.prefix_append _ _, List.prefix_append _ _⟩
  refine ⟨rs, h, hgen, htext, ?_⟩
  cases hc : streamCut (stops.filter (· ≠ [])) [] pieces with
  | some t =>
    rw [hc] at hres
    obtain ⟨rfl, hstop⟩ := hres
    obtain ⟨⟨s, hs, hne, hp⟩, hclean⟩ := streamCut_sound hc
    have hpre : h.text <+: pieces.flatten := (List.prefix_append _ s).trans hp
    refine ⟨hpre, hclean, fun hno => ?_, fun n hn => ?_, hmoment⟩
    · obtain ⟨e, he⟩ := hp
      exact absurd ⟨h.text, e, he⟩ (hno s hs hne)
    · rw [hstop, Option.some.injEq] at hn
      exact ⟨hn.symm, s, hs, hne, hp⟩
  | none =>
    rw [hc] at hres
    obtain ⟨hall, hstop⟩ := hres
    have hclean := streamCut_none hc
    rw [hall]
    refine ⟨List.prefix_rfl, hclean, fun _ => rfl, fun n hn => ?_, hall ▸ hmoment⟩
    rw [hstop] at hn
    cases hn

/-! ## One text, cut into pieces in every way -/

/-- The final text and where it was stopped. -/
def outcome (stops pieces : List Str) : Option (Str × Option ℕ) :=
  (generate stops pieces).map fun r => (r.2.text, r.2.stopped)

theorem outcome_eq (stops pieces : List Str) :
    outcome stops pieces = some (match streamCut (stops.filter (· ≠ [])) [] pieces with
      | some t => (t, some (Str.len t))
      | none => (pieces.flatten, none)) := by
  obtain ⟨rs, h, hgen, -, hres⟩ := generate_spec stops pieces
  rw [outcome, hgen]
  cases hc : streamCut (stops.filter (· ≠ [])) [] pieces with
  | some t =>
    rw [hc] at hres
    obtain ⟨rfl, hstop⟩ := hres
    simp only [Option.map_some, hstop]
  | none =>
    rw [hc] at hres
    obtain ⟨hall, hstop⟩ := hres
    simp only [Option.map_some, hstop, hall]

theorem streamCut_whole (S : List Str) (text : Str) : streamCut S [] [text] = cut S text := by
  simp only [streamCut, List.nil_append]
  cases cut S text <;> rfl

/-- Equal outcomes are equal cuts. -/
theorem outcome_inj {stops ps qs : List Str} (hflat : ps.flatten = qs.flatten) :
    outcome stops ps = outcome stops qs ↔
      streamCut (stops.filter (· ≠ [])) [] ps = streamCut (stops.filter (· ≠ [])) [] qs := by
  rw [outcome_eq, outcome_eq, Option.some.injEq]
  cases streamCut (stops.filter (· ≠ [])) [] ps <;>
    cases streamCut (stops.filter (· ≠ [])) [] qs <;> simp [hflat]
  rintro rfl
  rfl

/-- The outcome is the same for every way to cut the text exactly when no stop occurs in it, or one
occurrence of a stop both starts and ends no later than any other. -/
theorem outcome_split_iff (stops : List Str) (text : Str) :
    (∀ pieces, pieces.flatten = text → outcome stops pieces = outcome stops [text]) ↔
      (∀ s ∈ stops, s ≠ [] → ¬ s <:+: text) ∨
      ∃ a s, s ∈ stops ∧ s ≠ [] ∧ a ++ s <+: text ∧
        ∀ a' s', s' ∈ stops → s' ≠ [] → a' ++ s' <+: text →
          a.length ≤ a'.length ∧ (a ++ s).length ≤ (a' ++ s').length := by
  have hS := nil_notMem_nonempty stops
  have hleads : (∃ a s, Leads (stops.filter (· ≠ [])) text a s) ↔
      ∃ a s, s ∈ stops ∧ s ≠ [] ∧ a ++ s <+: text ∧
        ∀ a' s', s' ∈ stops → s' ≠ [] → a' ++ s' <+: text →
          a.length ≤ a'.length ∧ (a ++ s).length ≤ (a' ++ s').length := by
    simp only [Leads, mem_nonempty, and_assoc, and_imp]
  rw [← hleads]
  have hinj : ∀ pieces, pieces.flatten = text → (outcome stops pieces = outcome stops [text] ↔
      streamCut (stops.filter (· ≠ [])) [] pieces = cut (stops.filter (· ≠ [])) text) := by
    intro pieces hp
    rw [← streamCut_whole]
    exact outcome_inj (by simpa using hp)
  constructor
  · intro hall
    cases hc : cut (stops.filter (· ≠ [])) text with
    | none =>
      exact .inl fun s hs hne => cut_eq_none.mp hc s (mem_nonempty.mpr ⟨hs, hne⟩)
    | some a =>
      have hone := (hinj _ (flatten_singletons text)).mp (hall _ (flatten_singletons text))
      rw [hc] at hone
      obtain ⟨s, hs⟩ := leads_of_singletons hS hc hone
      exact .inr ⟨a, s, hs⟩
  · rintro (hno | ⟨a, s, hs⟩) pieces rfl
    · have hnil : cut (stops.filter (· ≠ [])) [] = none := by simp [cut]
      have hcut : cut (stops.filter (· ≠ [])) pieces.flatten = none :=
        cut_eq_none.mpr fun s hs => hno s (mem_nonempty.mp hs).1 (mem_nonempty.mp hs).2
      rw [hinj _ rfl, hcut, streamCut_eq_none hnil]
      exact hcut
    · rw [hinj _ rfl, hs.cut, hs.streamCut hS]

/-- Two stops that overlap: `abcd` starts first, `bc` is complete first. -/
theorem overlapping_stops_split :
    ¬ ∀ (stops : List Str) (text : Str) (pieces : List Str), pieces.flatten = text →
      outcome stops pieces = outcome stops [text] := by
  intro h
  have := h [['a', 'b', 'c', 'd'], ['b', 'c']] ['a', 'b', 'c', 'd'] [['a', 'b', 'c'], ['d']] rfl
  revert this
  decide +kernel

end StudioWorker.Engine.StopHold
