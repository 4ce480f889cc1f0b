import StudioWorker.Lib.Occurrences
import StudioWorker.LlamaProcess.Protocol
import StudioWorker.Text

/-!
# Markers — where the pictures of a chat go (`src/vision.rs`)

* `withMarkers`: as in the source.
* `places`: where a marker is in the messages, in the order the backend meets it.
* `withMarkers_iff`: the markers are the ones that were put there, and no others, exactly when no
  message holds the marker and none begins inside a marker's line.
-/

namespace StudioWorker.Markers

open LlamaProcess Lib.Occurrences

/-- `format!("{marker}\n")` -/
def markerLine (marker : Text) : Text := marker ++ ['\n']

/-- A message with `count` markers, one line each, before its own text. -/
def addMarkers (marker : Text) (count : ℕ) (m : ChatMessage) : ChatMessage :=
  { m with content := .ofList (lines (markerLine marker) count ++ m.content.toList) }

/-- The first user message changed, where there is one. -/
def markFirst (marker : Text) (count : ℕ) : List ChatMessage → Option (List ChatMessage)
  | [] => none
  | m :: ms =>
    if m.role = "user" then some (addMarkers marker count m :: ms)
    else (markFirst marker count ms).map (m :: ·)

/-- `with_markers`: the last user message changed. -/
def withMarkers (messages : List ChatMessage) (marker : Text) (count : ℕ) :
    Except Text (List ChatMessage) :=
  if count = 0 then .ok messages
  else match markFirst marker count messages.reverse with
    | some marked => .ok marked.reverse
    | none => .error "the task carries images but no user message to read them with".toList

/-- Where a marker is: in which message, counted from `i`, and at which place of it. -/
def places (marker : Text) : ℕ → List ChatMessage → List (ℕ × ℕ)
  | _, [] => []
  | i, m :: ms => (occurrences marker m.content.toList).map (i, ·) ++ places marker (i + 1) ms

/-- The messages are unchanged but for `count` markers at the start of the last user message, and
these are the only ones: the marker of the `k`-th picture is the `k`-th. -/
def Marked (marker : Text) (count : ℕ) (messages out : List ChatMessage) : Prop :=
  ∃ before last after, messages = before ++ last :: after ∧ last.role = "user" ∧
    (∀ m ∈ after, m.role ≠ "user") ∧ out = before ++ addMarkers marker count last :: after ∧
      places marker 0 out = (starts (markerLine marker) count).map (before.length, ·)

/-- No message holds the marker, and none begins inside a marker's line: neither where the last
user message's text follows it nor where another marker does. -/
structure Free (marker : Text) (count : ℕ) (messages : List ChatMessage) : Prop where
  content : ∀ m ∈ messages, ¬ marker <:+: m.content.toList
  text : ∀ last ∈ messages.reverse.find? (·.role = "user"),
    ¬ Spills (markerLine marker) marker last.content.toList
  marker : 2 ≤ count → ¬ Spills (markerLine marker) marker marker

variable {marker : Text} {count : ℕ}

/-! ## The last user message -/

theorem markFirst_append {before after : List ChatMessage} {first : ChatMessage}
    (hbefore : ∀ m ∈ before, m.role ≠ "user") (hfirst : first.role = "user") :
    markFirst marker count (before ++ first :: after) =
      some (before ++ addMarkers marker count first :: after) := by
  induction before with
  | nil => exact if_pos hfirst
  | cons m before ih =>
    obtain ⟨hm, hbefore⟩ := List.forall_mem_cons.mp hbefore
    rw [List.cons_append, markFirst, if_neg hm, ih hbefore, Option.map_some, List.cons_append]

section Last

variable {before after : List ChatMessage} {last : ChatMessage}

theorem withMarkers_append (hcount : 0 < count) (hlast : last.role = "user")
    (hafter : ∀ m ∈ after, m.role ≠ "user") :
    withMarkers (before ++ last :: after) marker count =
      .ok (before ++ addMarkers marker count last :: after) := by
  have hreverse : (before ++ last :: after).reverse = after.reverse ++ last :: before.reverse := by
    rw [List.reverse_append, List.reverse_cons, List.append_assoc, List.singleton_append]
  rw [withMarkers, if_neg hcount.ne', hreverse,
    markFirst_append (fun m hm => hafter m (List.mem_reverse.mp hm)) hlast]
  simp

theorem find?_last (hlast : last.role = "user") (hafter : ∀ m ∈ after, m.role ≠ "user") :
    (before ++ last :: after).reverse.find? (·.role = "user") = some last := by
  refine List.find?_eq_some_iff_append.mpr ⟨decide_eq_true hlast, after.reverse, before.reverse,
    ?_, fun m hm => ?_⟩
  · rw [List.reverse_append, List.reverse_cons, List.append_assoc, List.singleton_append]
  · simpa using hafter m (List.mem_reverse.mp hm)

theorem exists_last {messages : List ChatMessage} (huser : ∃ m ∈ messages, m.role = "user") :
    ∃ before last after, messages = before ++ last :: after ∧ last.role = "user" ∧
      ∀ m ∈ after, m.role ≠ "user" := by
  obtain ⟨m, hm, hrole⟩ := huser
  obtain ⟨last, hlast⟩ := Option.isSome_iff_exists.mp
    (List.find?_isSome.mpr ⟨m, List.mem_reverse.mpr hm, decide_eq_true hrole⟩ :
      (messages.reverse.find? (·.role = "user")).isSome)
  obtain ⟨hrole, after, before, hreverse, hafter⟩ := List.find?_eq_some_iff_append.mp hlast
  refine ⟨before.reverse, last, after.reverse, ?_, of_decide_eq_true hrole, fun m hm => ?_⟩
  · rw [← List.reverse_reverse messages, hreverse]
    simp
  · simpa using hafter m (List.mem_reverse.mp hm)

end Last

/-! ## Where the marker is -/

theorem le_of_mem_places {i : ℕ} {ms : List ChatMessage} {p : ℕ × ℕ}
    (hp : p ∈ places marker i ms) : i ≤ p.1 := by
  induction ms generalizing i with
  | nil => cases hp
  | cons m ms ih =>
    rcases List.mem_append.mp hp with hp | hp
    · obtain ⟨j, -, rfl⟩ := List.mem_map.mp hp
      exact le_rfl
    · exact (Nat.le_succ i).trans (ih hp)

theorem places_eq_nil {i : ℕ} {ms : List ChatMessage} :
    places marker i ms = [] ↔ ∀ m ∈ ms, ¬ marker <:+: m.content.toList := by
  induction ms generalizing i with
  | nil => simp [places]
  | cons m ms ih =>
    rw [places, List.append_eq_nil_iff, List.map_eq_nil_iff, occurrences_eq_nil_iff, ih,
      List.forall_mem_cons]

/-- The marker is in one message only, and there where `found` says. -/
theorem places_eq_iff {before after : List ChatMessage} {m : ChatMessage} {i : ℕ}
    {found : List ℕ} :
    places marker i (before ++ m :: after) = found.map (i + before.length, ·) ↔
      (∀ other ∈ before ++ after, ¬ marker <:+: other.content.toList) ∧
        occurrences marker m.content.toList = found := by
  induction before generalizing i with
  | nil =>
    show (occurrences marker m.content.toList).map (i, ·) ++ places marker (i + 1) after =
      found.map (i, ·) ↔ _
    rw [List.nil_append, ← places_eq_nil (i := i + 1)]
    constructor
    · intro h
      have hnil : places marker (i + 1) after = [] := by
        refine List.eq_nil_iff_forall_not_mem.mpr fun p hp => ?_
        obtain ⟨j, -, rfl⟩ := List.mem_map.mp (h ▸ List.mem_append_right _ hp)
        exact absurd (le_of_mem_places hp) (Nat.not_succ_le_self i)
      rw [hnil, List.append_nil] at h
      exact ⟨hnil, List.map_injective_iff.mpr (Prod.mk_right_injective i) h⟩
    · rintro ⟨hnil, h⟩
      rw [hnil, List.append_nil, h]
  | cons b before ih =>
    have hplace : i + (b :: before).length = i + 1 + before.length := by
      rw [List.length_cons, Nat.add_assoc, Nat.add_comm 1]
    rw [hplace, List.cons_append, places, List.cons_append, List.forall_mem_cons,
      ← occurrences_eq_nil_iff (t := b.content.toList), and_assoc, ← ih (i := i + 1)]
    constructor
    · intro h
      have hnil : occurrences marker b.content.toList = [] := by
        refine List.eq_nil_iff_forall_not_mem.mpr fun j hj => ?_
        obtain ⟨k, -, hk⟩ := List.mem_map.mp
          (h ▸ List.mem_append_left _ (List.mem_map_of_mem (f := (i, ·)) hj))
        have := congrArg Prod.fst hk
        dsimp only at this
        omega
      exact ⟨hnil, by rwa [hnil, List.map_nil, List.nil_append] at h⟩
    · rintro ⟨hnil, h⟩
      rw [hnil, List.map_nil, List.nil_append, h]

/-- The markers are the ones that were put there exactly when the marker is free. -/
theorem places_iff_free {before after : List ChatMessage} {last : ChatMessage}
    (hcount : 0 < count) (hlast : last.role = "user") (hafter : ∀ m ∈ after, m.role ≠ "user") :
    places marker 0 (before ++ addMarkers marker count last :: after) =
        (starts (markerLine marker) count).map (before.length, ·) ↔
      Free marker count (before ++ last :: after) := by
  have hiff : occurrences marker (lines (markerLine marker) count ++ last.content.toList) =
      starts (markerLine marker) count ↔ _ := occurrences_lines_iff
    (List.prefix_append marker ['\n']) (by simp) hcount
  have hplaces : places marker 0 (before ++ addMarkers marker count last :: after) =
      (starts (markerLine marker) count).map (0 + before.length, ·) ↔ _ := places_eq_iff
  rw [Nat.zero_add] at hplaces
  rw [hplaces, addMarkers, String.toList_ofList, hiff]
  constructor
  · rintro ⟨hothers, htext, hspill, hmarker⟩
    refine ⟨fun m hm => ?_, fun m hm => ?_, hmarker⟩
    · rcases List.mem_append.mp hm with hm | hm
      · exact hothers m (List.mem_append_left _ hm)
      · rcases List.mem_cons.mp hm with rfl | hm
        · exact htext
        · exact hothers m (List.mem_append_right _ hm)
    · rw [find?_last hlast hafter] at hm
      obtain rfl := Option.some_inj.mp hm
      exact hspill
  · intro hfree
    refine ⟨fun m hm => hfree.content m ?_, hfree.content last (by simp), ?_, hfree.marker⟩
    · rcases List.mem_append.mp hm with hm | hm
      · exact List.mem_append_left _ hm
      · exact List.mem_append_right _ (List.mem_cons_of_mem last hm)
    · exact hfree.text last (find?_last hlast hafter)

/-- The backend meets the `count` markers of the pictures, in order, and no others, exactly when
the marker is free. -/
theorem withMarkers_iff (marker : Text) {count : ℕ} (hcount : 0 < count)
    {messages : List ChatMessage} (huser : ∃ m ∈ messages, m.role = "user") :
    (∃ out, withMarkers messages marker count = .ok out ∧ Marked marker count messages out) ↔
      Free marker count messages := by
  constructor
  · rintro ⟨out, -, before, last, after, rfl, hlast, hafter, rfl, hplaces⟩
    exact (places_iff_free hcount hlast hafter).mp hplaces
  · intro hfree
    obtain ⟨before, last, after, rfl, hlast, hafter⟩ := exists_last huser
    exact ⟨_, withMarkers_append hcount hlast hafter, before, last, after, rfl, hlast, hafter, rfl,
      (places_iff_free hcount hlast hafter).mpr hfree⟩

theorem withMarkers_iff_question :
    (∃ out, withMarkers [⟨"user", "what is this?"⟩] "<__media__>".toList 1 = .ok out ∧
        Marked "<__media__>".toList 1 [⟨"user", "what is this?"⟩] out) ↔
      Free "<__media__>".toList 1 [⟨"user", "what is this?"⟩] :=
  withMarkers_iff "<__media__>".toList (by decide) ⟨_, List.mem_cons_self, rfl⟩

/-- A text that names the marker is taken for the place of a picture. -/
theorem withMarkers_named :
    ¬ ∃ out, withMarkers [⟨"user", "what is <__media__>?"⟩] "<__media__>".toList 1 = .ok out ∧
      Marked "<__media__>".toList 1 [⟨"user", "what is <__media__>?"⟩] out := by
  rintro ⟨out, -, before, last, after, hmessages, hlast, hafter, rfl, hplaces⟩
  have hfree := (places_iff_free (by decide) hlast hafter).mp hplaces
  rw [← hmessages] at hfree
  exact hfree.content _ List.mem_cons_self ⟨"what is ".toList, "?".toList, rfl⟩

end StudioWorker.Markers
