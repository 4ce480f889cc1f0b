import Mathlib.Algebra.GroupWithZero.Nat
import StudioWorker.Release

/-!
# ReleaseTags — the version a tag carries (`src/update.rs`)

`parse_tag` takes the text behind the last `-v` of a tag, and takes the tag itself before that.

* `SemverCrate`: what `parse_tag` relies on from `semver::Version`.
* `carries_iff`: the components and versions whose tags carry the version.
* `SemverText`: versions as their own texts, over the grammar of semantic versions.
-/

namespace StudioWorker.Update

open Lib.Search

/-- `Version::parse` and the printer of versions: the parser inverts the printer and accepts no
other text, and a version begins with a digit. -/
structure SemverCrate (V : Type*) where
  parse : Text → Option V
  print : V → Text
  parse_eq_some : ∀ t v, parse t = some v ↔ t = print v
  digit : ∀ v, ∃ c rest, print v = c :: rest ∧ c.isDigit = true

def dashV : Text := ['-', 'v']

/-- The tag that release tools push for a component. -/
def componentTag (component version : Text) : Text := component ++ dashV ++ version

section Tags

variable {V : Type*} {S : SemverCrate V}

/-- The candidates in their order. -/
theorem parseTag_ofList (tag : Text) :
    parseTag S.parse (String.ofList tag) =
      [tag, (Text.stripPrefix ['v'] tag).getD tag,
        ((Text.rsplitOnce dashV tag).map (·.2)).getD tag].findSome? S.parse := by
  rw [parseTag, String.toList_ofList]
  rfl

theorem SemverCrate.parse_print (v : V) : S.parse (S.print v) = some v :=
  (S.parse_eq_some _ v).mpr rfl

theorem parse_of_no_digit {c : Char} (hc : c.isDigit = false) (rest : Text) :
    S.parse (c :: rest) = none := by
  rcases hparse : S.parse (c :: rest) with _ | v
  · rfl
  · obtain ⟨d, rest', hprint, hd⟩ := S.digit v
    have heq := (S.parse_eq_some _ v).mp hparse
    rw [hprint] at heq
    rw [(List.cons.inj heq).1, hd] at hc
    cases hc

/-- A version alone is the first candidate. -/
theorem parseTag_print (v : V) : parseTag S.parse (String.ofList (S.print v)) = some v := by
  rw [parseTag_ofList, List.findSome?_cons, S.parse_print]

/-- Behind a `v` it is the second one. -/
theorem parseTag_v_print (v : V) :
    parseTag S.parse (String.ofList ('v' :: S.print v)) = some v := by
  have hstrip : Text.stripPrefix ['v'] ('v' :: S.print v) = some (S.print v) :=
    Text.stripPrefix_some.mpr rfl
  rw [parseTag_ofList, List.findSome?_cons, parse_of_no_digit (by decide), List.findSome?_cons,
    hstrip, Option.getD_some, S.parse_print]

/-- What stands behind the last `-v` of a component's tag. -/
theorem rsplitOnce_componentTag (component : Text) {version : Text} (h : ¬ dashV <:+: version) :
    Text.rsplitOnce dashV (componentTag component version) = some (component, version) := by
  have hreverse : ¬ ['v', '-'] <:+: version.reverse := fun hin => h (List.reverse_infix.mp hin)
  have hsplit := splitOnce_of_head (by decide) hreverse component.reverse
  have htag : (componentTag component version).reverse =
      version.reverse ++ ['v', '-'] ++ component.reverse := by
    rw [componentTag, List.reverse_append, List.reverse_append, List.append_assoc]
    rfl
  rw [Text.rsplitOnce, htag]
  show ((splitOnce ['v', '-'] _).map _) = _
  rw [hsplit, Option.map_some, List.reverse_reverse, List.reverse_reverse]

/-- With a `-v` in the version less than it stands there. -/
theorem rsplitOnce_shorter (component : Text) {version : Text} (h : dashV <:+: version) :
    ∃ a b, Text.rsplitOnce dashV (componentTag component version) = some (a, b) ∧
      b.length < version.length := by
  have hreverse : ['v', '-'] <:+: version.reverse := List.reverse_infix.mpr h
  obtain ⟨⟨x, y⟩, hsplit⟩ := Option.ne_none_iff_exists'.mp fun hnone =>
    splitOnce_none.mp hnone hreverse
  have hmore := splitOnce_append hsplit (['v', '-'] ++ component.reverse)
  have htag : (componentTag component version).reverse =
      version.reverse ++ (['v', '-'] ++ component.reverse) := by
    rw [componentTag, List.reverse_append, List.reverse_append]
    rfl
  refine ⟨(y ++ (['v', '-'] ++ component.reverse)).reverse, x.reverse, ?_, ?_⟩
  · rw [Text.rsplitOnce, htag]
    show ((splitOnce ['v', '-'] _).map _) = _
    rw [hmore, Option.map_some]
  · have hlen := congrArg List.length (splitOnce_some hsplit).1
    rw [List.length_reverse, List.length_append, List.length_append] at hlen
    have htwo : (['v', '-'] : Text).length = 2 := rfl
    rw [List.length_reverse]
    omega

/-- Neither of the first two candidates of a component's tag is its version. -/
theorem parse_ne_of_longer {t : Text} {v : V} (h : (S.print v).length < t.length) :
    S.parse t ≠ some v := fun hparse => by
  rw [(S.parse_eq_some t v).mp hparse] at h
  exact absurd h (Nat.lt_irrefl _)

theorem length_componentTag (component version : Text) :
    (componentTag component version).length = component.length + 2 + version.length := by
  rw [componentTag, List.length_append, List.length_append]
  rfl

theorem length_stripped (t : Text) :
    t.length ≤ ((Text.stripPrefix ['v'] t).getD t).length + 1 := by
  rcases hstrip : Text.stripPrefix ['v'] t with _ | rest
  · exact Nat.le_succ _
  · rw [Text.stripPrefix_some.mp hstrip, Option.getD_some]
    exact Nat.le_refl _

theorem parseTag_componentTag (component : Text) (v : V) :
    parseTag S.parse (String.ofList (componentTag component (S.print v))) = some v ↔
      ¬ dashV <:+: S.print v ∧ S.parse (componentTag component (S.print v)) = none ∧
        S.parse ((Text.stripPrefix ['v'] (componentTag component (S.print v))).getD
          (componentTag component (S.print v))) = none := by
  have hlen := length_componentTag component (S.print v)
  have hstripped := length_stripped (componentTag component (S.print v))
  rw [parseTag_ofList]
  generalize htag : componentTag component (S.print v) = tag at *
  have hfirst : S.parse tag ≠ some v := parse_ne_of_longer (by omega)
  have hsecond : S.parse ((Text.stripPrefix ['v'] tag).getD tag) ≠ some v :=
    parse_ne_of_longer (by omega)
  rw [List.findSome?_cons, List.findSome?_cons]
  rcases h₁ : S.parse tag with _ | w
  · rcases h₂ : S.parse ((Text.stripPrefix ['v'] tag).getD tag) with _ | w
    · by_cases hdash : dashV <:+: S.print v
      · obtain ⟨a, b, hsplit, hshort⟩ := rsplitOnce_shorter component hdash
        rw [htag] at hsplit
        have hthird : S.parse b ≠ some v := fun hparse => by
          rw [(S.parse_eq_some b v).mp hparse] at hshort
          exact absurd hshort (Nat.lt_irrefl _)
        rw [hsplit, Option.map_some, Option.getD_some, List.findSome?_cons]
        rcases hb : S.parse b with _ | w
        · simp [hdash]
        · rw [hb] at hthird
          have hne : w ≠ v := fun heq => hthird (congrArg some heq)
          simp [hdash, hne]
      · have hsplit := rsplitOnce_componentTag component hdash
        rw [htag] at hsplit
        rw [hsplit, Option.map_some, Option.getD_some, List.findSome?_cons, S.parse_print]
        simp [hdash]
    · rw [h₂] at hsecond
      have hne : w ≠ v := fun heq => hsecond (congrArg some heq)
      simp [hne]
  · rw [h₁] at hfirst
    have hne : w ≠ v := fun heq => hfirst (congrArg some heq)
    simp [hne]

end Tags

section Carries

variable {V : Type*} (S : SemverCrate V)

/-- A tag is read as this version, and a release that has it is ranked by it, in any order. -/
structure ReadAs (v : V) (tag : Text) : Prop where
  parsed : parseTag S.parse (String.ofList tag) = some v
  ranked : ∀ [LinearOrder V] (r : GithubRelease) (current : V) (prereleaseOk : Bool),
    r.tagName = String.ofList tag → admitted prereleaseOk r = true →
      Update.decide S.parse [r] current prereleaseOk =
        if current < v then .newerAvailable current v else .upToDate current

/-- The three forms of a tag carry the version. -/
structure Carries (component : Text) (v : V) : Prop where
  bare : ReadAs S v (S.print v)
  prefixed : ReadAs S v ('v' :: S.print v)
  component : ReadAs S v (componentTag component (S.print v))

variable {S}

/-- A tag is ranked as it is read. -/
theorem readAs_iff {v : V} {tag : Text} :
    ReadAs S v tag ↔ parseTag S.parse (String.ofList tag) = some v := by
  refine ⟨fun h => h.parsed, fun h => ⟨h, fun {_} r current prereleaseOk htag hadmitted => ?_⟩⟩
  have hfilter : [r].filter (admitted prereleaseOk) = [r] :=
    List.filter_eq_self.mpr fun r' hr' => (List.mem_singleton.mp hr').symm ▸ hadmitted
  have hversions : [r].filterMap (fun r => parseTag S.parse r.tagName) = [v] :=
    List.filterMap_cons_some (htag.symm ▸ h)
  simp only [Update.decide, hfilter, hversions, List.max?_singleton]

/-- **Each form of a tag carries its version** exactly where neither the version has a `-v` nor the
component's tag, with or without a `v` in front, is a version itself. -/
theorem carries_iff (S : SemverCrate V) (component : Text) (v : V) :
    Carries S component v ↔
      ¬ dashV <:+: S.print v ∧ S.parse (componentTag component (S.print v)) = none ∧
        S.parse ((Text.stripPrefix ['v'] (componentTag component (S.print v))).getD
          (componentTag component (S.print v))) = none := by
  constructor
  · intro h
    exact (parseTag_componentTag component v).mp h.component.parsed
  · intro h
    refine ⟨?_, ?_, ?_⟩
    · exact readAs_iff.mpr (parseTag_print v)
    · exact readAs_iff.mpr (parseTag_v_print v)
    · exact readAs_iff.mpr ((parseTag_componentTag component v).mpr h)

end Carries

/-! ## Versions as their texts -/

def isIdentifierChar (c : Char) : Bool := c.isAlphanum || c == '-'

/-- A number of at most 64 bits without leading zeros. -/
def isNumber (t : Text) : Bool :=
  t ≠ [] && t.all Char.isDigit && (t.head? ≠ some '0' || t.length == 1) &&
    t.foldl (fun n c => n * 10 + (c.toNat - '0'.toNat)) 0 < 2 ^ 64

/-- An identifier of the build metadata. -/
def isBuildIdentifier (t : Text) : Bool := t ≠ [] && t.all isIdentifierChar

/-- An identifier of the prerelease: a number there has no leading zero. -/
def isIdentifier (t : Text) : Bool :=
  isBuildIdentifier t && (t.any (fun c => !c.isDigit) || t.head? ≠ some '0' || t.length == 1)

/-- What precedes the first `c`, and what follows it. -/
def cutAt (c : Char) (t : Text) : Text × Option Text :=
  (t.takeWhile (· ≠ c), (t.dropWhile (· ≠ c)).tail?)

/-- `major.minor.patch[-prerelease][+build]` -/
def isVersion (t : Text) : Bool :=
  let (rest, build) := cutAt '+' t
  let (core, prerelease) := cutAt '-' rest
  let numbers := core.splitOn '.'
  numbers.length == 3 && numbers.all isNumber &&
    prerelease.all (fun ids => (ids.splitOn '.').all isIdentifier) &&
    build.all fun ids => (ids.splitOn '.').all isBuildIdentifier

/-- A version begins with a digit. -/
theorem isVersion_digit {t : Text} (h : isVersion t = true) :
    ∃ c rest, t = c :: rest ∧ c.isDigit = true := by
  rw [isVersion] at h
  simp only [cutAt, Bool.and_eq_true, beq_iff_eq, List.all_eq_true] at h
  obtain ⟨⟨⟨hlen, hnumbers⟩, -⟩, -⟩ := h
  rcases t with _ | ⟨c, t⟩
  · cases hlen
  · refine ⟨c, t, rfl, ?_⟩
    generalize hcore : ((c :: t).takeWhile (· ≠ '+')).takeWhile (· ≠ '-') = core at hlen hnumbers
    rcases core with _ | ⟨d, core⟩
    · cases hlen
    · have hd : d = c := by
        by_cases hplus : c = '+'
        · simp [hplus] at hcore
        · by_cases hdash : c = '-'
          · simp [hdash] at hcore
          · simp [hplus, hdash] at hcore
            exact hcore.1.symm
      subst hd
      rw [List.splitOn_cons_eq_if_modifyHead] at hnumbers
      obtain ⟨w, ws, hrest⟩ := List.exists_cons_of_ne_nil (List.splitOn_ne_nil '.' core)
      rw [hrest] at hnumbers
      split_ifs at hnumbers
      · exact absurd (hnumbers [] List.mem_cons_self) (by decide)
      · have hhead := hnumbers (d :: w) (by rw [List.modifyHead_cons]; exact List.mem_cons_self)
        simp only [isNumber, Bool.and_eq_true, List.all_eq_true] at hhead
        exact hhead.1.1.2 d List.mem_cons_self

/-- Versions as their texts. -/
def SemverText : Type := { t : Text // isVersion t = true }

def semverTexts : SemverCrate SemverText where
  parse t := if h : isVersion t = true then some ⟨t, h⟩ else none
  print v := v.1
  parse_eq_some t v := by
    constructor
    · intro h
      split_ifs at h
      exact congrArg Subtype.val (Option.some.inj h)
    · rintro rfl
      exact dif_pos v.2
  digit v := isVersion_digit v.2

/-- A prerelease with a `-v` in it: `w-v1.0.0-rc-v2.0.0` is read as `2.0.0`. -/
theorem dashed_prerelease_is_cut :
    ¬ ∀ (component : Text) (v : SemverText), Carries semverTexts component v := by
  intro h
  have hversion : isVersion ['1', '.', '0', '.', '0', '-', 'r', 'c', '-', 'v', '2', '.', '0', '.',
      '0'] = true := by decide
  have hcarries := h ['w'] ⟨_, hversion⟩
  have hparsed := (parseTag_componentTag _ _).mp hcarries.component.parsed
  refine hparsed.1 ⟨['1', '.', '0', '.', '0', '-', 'r', 'c'], ['2', '.', '0', '.', '0'], ?_⟩
  rfl

end StudioWorker.Update
