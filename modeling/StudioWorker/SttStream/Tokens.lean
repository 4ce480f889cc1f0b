import Mathlib.Algebra.Order.Ring.Int
import StudioWorker.Text

/-!
# SttStream.Tokens — what opens a streaming session (`src/stt_stream/tokens.rs`)

Times and lifetimes are in nanoseconds.  A token is drawn by `new_secret_hex` and an argument here,
as the digest is; the table is held under one lock, so calls follow each other.

* `StreamTokens.mint`, `StreamTokens.check`: the two calls.
* `Holds`: what the table holds after some calls.
* `check_ok_iff`: the tokens that are accepted, after any calls.
-/

namespace StudioWorker.SttStream

/-- `MIN_TTL` and `MAX_TTL`. -/
def minTtl : ℤ := 30 * 1000000000
def maxTtl : ℤ := 3600 * 1000000000

/-- `ttl.clamp(MIN_TTL, MAX_TTL)` -/
def clampTtl (ttl : ℤ) : ℤ := if ttl < minTtl then minTtl else if maxTtl < ttl then maxTtl else ttl

/-- A minted token and what it opens. -/
structure StreamGrant where
  token : Text
  model : Text
  expiresAt : ℤ
deriving DecidableEq

inductive TokenRejection where
  | unknown
  | expired
deriving DecidableEq

def TokenRejection.message : TokenRejection → String
  | unknown => "unknown stream token"
  | expired => "stream token expired"

structure Grant where
  model : Text
  expiresAt : ℤ
deriving DecidableEq

/-- Live tokens, keyed by the digest of the token. -/
structure StreamTokens where
  grants : Text → Option Grant

namespace StreamTokens

def new : StreamTokens := ⟨fun _ => none⟩

/-- `grants.retain(|_, g| g.expires_at > now)` -/
def prune (s : StreamTokens) (now : ℤ) : StreamTokens :=
  ⟨fun key => (s.grants key).filter fun g => now < g.expiresAt⟩

variable (sha : Text → Text)

/-- Mint a token for `model`, valid for `ttl` (clamped) from `now`. -/
def mint (s : StreamTokens) (token model : Text) (ttl now : ℤ) : StreamGrant × StreamTokens :=
  let expiresAt := now + clampTtl ttl
  (⟨token, model, expiresAt⟩,
    ⟨Function.update (s.prune now).grants (sha token) (some ⟨model, expiresAt⟩)⟩)

/-- The model `token` opens, if it is live at `now`. -/
def check (s : StreamTokens) (token : Text) (now : ℤ) : Except TokenRejection Text :=
  match s.grants (sha token) with
  | none => .error .unknown
  | some g => if g.expiresAt ≤ now then .error .expired else .ok g.model

end StreamTokens

inductive TokenCall where
  | mint (token model : Text) (ttl now : ℤ)
  | check (token : Text) (now : ℤ)
deriving DecidableEq

namespace TokenCall

def now : TokenCall → ℤ
  | mint _ _ _ now => now
  | check _ now => now

def minted? : TokenCall → Option Text
  | mint token _ _ _ => some token
  | check _ _ => none

/-- What a call leaves; a check changes nothing. -/
def apply (sha : Text → Text) (s : StreamTokens) : TokenCall → StreamTokens
  | mint token model ttl now => (s.mint sha token model ttl now).2
  | check _ _ => s

end TokenCall

/-- The tokens some calls mint. -/
def minted (calls : List TokenCall) : List Text := calls.filterMap TokenCall.minted?

/-- The table after some calls. -/
def StreamTokens.after (sha : Text → Text) (calls : List TokenCall) : StreamTokens :=
  calls.foldl (TokenCall.apply sha) .new

/-! ## What the table holds -/

variable {sha : Text → Text} {calls : List TokenCall} {c : TokenCall} {s : StreamTokens}

@[simp] theorem after_nil : StreamTokens.after sha [] = .new := rfl

theorem after_concat :
    StreamTokens.after sha (calls ++ [c]) = c.apply sha (.after sha calls) := by
  rw [StreamTokens.after, List.foldl_append, List.foldl_cons, List.foldl_nil, ← StreamTokens.after]

theorem minted_concat : minted (calls ++ [c]) = minted calls ++ c.minted?.toList := by
  rw [minted, List.filterMap_append, ← minted]
  cases c <;> rfl

theorem mint_self {token model : Text} {ttl now : ℤ} :
    (s.mint sha token model ttl now).2.grants (sha token) =
      some ⟨model, now + clampTtl ttl⟩ := Function.update_self ..

theorem mint_of_ne {token model key : Text} {ttl now : ℤ} (h : key ≠ sha token) :
    (s.mint sha token model ttl now).2.grants key = (s.prune now).grants key :=
  Function.update_of_ne h ..

theorem mem_minted {token model : Text} {ttl t : ℤ} (h : .mint token model ttl t ∈ calls) :
    token ∈ minted calls := List.mem_filterMap.mpr ⟨_, h, rfl⟩

/-- What a table holds was minted, and what was minted and has not expired at `now` it holds. -/
structure Holds (sha : Text → Text) (calls : List TokenCall) (now : ℤ) (s : StreamTokens) :
    Prop where
  minted : ∀ key g, s.grants key = some g →
    ∃ token model ttl t, .mint token model ttl t ∈ calls ∧ sha token = key ∧
      g = ⟨model, t + clampTtl ttl⟩
  live : ∀ token model ttl t, .mint token model ttl t ∈ calls → now < t + clampTtl ttl →
    s.grants (sha token) = some ⟨model, t + clampTtl ttl⟩

theorem Holds.new (now : ℤ) : Holds sha [] now .new where
  minted key g hg := by cases hg
  live token model ttl t ht := by cases ht

/-- A grant that is live at a later time is live now, and pruning leaves it. -/
theorem Holds.mint {token model : Text} {ttl t now : ℤ} (h : Holds sha calls t s) (ht : t ≤ now)
    (hfresh : ∀ token' ∈ StudioWorker.SttStream.minted calls, sha token' ≠ sha token) :
    Holds sha (calls ++ [.mint token model ttl t]) now (s.mint sha token model ttl t).2 where
  minted key g hg := by
    by_cases hkey : key = sha token
    · subst hkey
      rw [mint_self] at hg
      exact ⟨token, model, ttl, t, List.mem_append_right _ (List.mem_singleton_self _), rfl,
        (Option.some.inj hg).symm⟩
    · rw [mint_of_ne hkey] at hg
      obtain ⟨hold, -⟩ := Option.filter_eq_some_iff.mp hg
      obtain ⟨token', model', ttl', t', hmem, hrest⟩ := h.minted key g hold
      exact ⟨token', model', ttl', t', List.mem_append_left _ hmem, hrest⟩
  live token' model' ttl' t' hmem hlive := by
    rcases List.mem_append.mp hmem with hmem | hmem
    · have hne := hfresh token' (mem_minted hmem)
      have hheld := h.live token' model' ttl' t' hmem (Int.lt_of_le_of_lt ht hlive)
      rw [mint_of_ne hne]
      refine Option.filter_eq_some_iff.mpr ⟨hheld, decide_eq_true ?_⟩
      exact Int.lt_of_le_of_lt ht hlive
    · obtain ⟨rfl, rfl, rfl, rfl⟩ := TokenCall.mint.inj (List.mem_singleton.mp hmem)
      exact mint_self

theorem Holds.check {token : Text} {t now : ℤ} (h : Holds sha calls now s) :
    Holds sha (calls ++ [.check token t]) now s where
  minted key g hg := by
    obtain ⟨token', model', ttl', t', hmem, hrest⟩ := h.minted key g hg
    exact ⟨token', model', ttl', t', List.mem_append_left _ hmem, hrest⟩
  live token' model' ttl' t' hmem := by
    rcases List.mem_append.mp hmem with hmem | hmem
    · exact h.live token' model' ttl' t' hmem
    · cases List.mem_singleton.mp hmem

/-- After calls at non-decreasing times, of tokens that differ with their digests. -/
theorem holds_after (hsorted : calls.Pairwise fun c c' => c.now ≤ c'.now)
    (hfresh : (minted calls).Nodup)
    (hsha : ∀ a ∈ minted calls, ∀ b ∈ minted calls, sha a = sha b → a = b) {now : ℤ}
    (hnow : ∀ c ∈ calls, c.now ≤ now) : Holds sha calls now (.after sha calls) := by
  induction calls using List.reverseRecOn generalizing now with
  | nil => exact Holds.new now
  | append_singleton calls c ih =>
    obtain ⟨hinit, -, hlast⟩ := List.pairwise_append.mp hsorted
    have hbefore : ∀ c' ∈ calls, c'.now ≤ c.now := fun c' hc' =>
      hlast c' hc' c (List.mem_singleton_self _)
    rw [minted_concat] at hfresh hsha
    obtain ⟨hnodup, -, hdisjoint⟩ := List.nodup_append.mp hfresh
    have hsha' : ∀ a ∈ minted calls, ∀ b ∈ minted calls, sha a = sha b → a = b :=
      fun a ha b hb => hsha a (List.mem_append_left _ ha) b (List.mem_append_left _ hb)
    have hc : c.now ≤ now := hnow c (List.mem_append_right _ (List.mem_singleton_self _))
    rw [after_concat]
    cases c with
    | mint token model ttl t =>
      refine (ih hinit hnodup hsha' hbefore).mint hc fun token' hmem heq => ?_
      have hmem' : token ∈ (TokenCall.mint token model ttl t).minted?.toList :=
        List.mem_singleton_self _
      refine hdisjoint token' hmem token hmem' (hsha token' ?_ token ?_ heq)
      · exact List.mem_append_left _ hmem
      · exact List.mem_append_right _ hmem'
    | check token t =>
      exact (ih hinit hnodup hsha' fun c' hc' =>
        hnow c' (List.mem_append_left _ hc')).check

/-- **What a check accepts**, after any minting and checking at non-decreasing times: the token of
a grant that was minted and has not expired, and its model. -/
theorem check_ok_iff (sha : Text → Text) (calls : List TokenCall) (token model : Text) (now : ℤ)
    (hsorted : (calls ++ [TokenCall.check token now]).Pairwise fun c c' => c.now ≤ c'.now)
    (hfresh : (minted calls).Nodup)
    (hsha : ∀ a ∈ token :: minted calls, ∀ b ∈ token :: minted calls, sha a = sha b → a = b) :
    (StreamTokens.after sha calls).check sha token now = .ok model ↔
      ∃ ttl t, .mint token model ttl t ∈ calls ∧ t ≤ now ∧ now < t + clampTtl ttl := by
  obtain ⟨hinit, -, hlast⟩ := List.pairwise_append.mp hsorted
  have hnow : ∀ c ∈ calls, c.now ≤ now := fun c hc => hlast c hc _ (List.mem_singleton_self _)
  have hholds := holds_after hinit hfresh
    (fun a ha b hb => hsha a (List.mem_cons_of_mem _ ha) b (List.mem_cons_of_mem _ hb)) hnow
  constructor
  · intro hcheck
    unfold StreamTokens.check at hcheck
    split at hcheck
    · cases hcheck
    · rename_i g hg
      split_ifs at hcheck with hexpired
      obtain rfl := Except.ok.inj hcheck
      obtain ⟨token', model', ttl, t, hmem, hkey, rfl⟩ := hholds.minted _ g hg
      obtain rfl := hsha token' (List.mem_cons_of_mem _ (mem_minted hmem)) token
        List.mem_cons_self hkey
      exact ⟨ttl, t, hmem, hnow _ hmem, Int.not_le.mp hexpired⟩
  · rintro ⟨ttl, t, hmem, -, hlive⟩
    rw [StreamTokens.check, hholds.live token model ttl t hmem hlive]
    exact if_neg (Int.not_le.mpr hlive)

/-- A token minted beside another one, pruned tokens and checks between. -/
theorem check_ok_iff_pruned :
    (StreamTokens.after id [.mint ['a'] ['m'] 0 0, .mint ['b'] ['n'] (2 * minTtl) 5,
          .check ['a'] 7, .mint ['c'] ['m'] 1 (minTtl + 1)]).check id ['b'] (minTtl + 2) =
        .ok ['n'] ↔
      ∃ ttl t, .mint ['b'] ['n'] ttl t ∈ [TokenCall.mint ['a'] ['m'] 0 0,
          .mint ['b'] ['n'] (2 * minTtl) 5, .check ['a'] 7, .mint ['c'] ['m'] 1 (minTtl + 1)] ∧
        t ≤ minTtl + 2 ∧ minTtl + 2 < t + clampTtl ttl :=
  check_ok_iff id _ ['b'] ['n'] (minTtl + 2) (by decide) (by decide) fun _ _ _ _ h => h

example : (StreamTokens.after id [.mint ['a'] ['m'] 0 0]).check id ['a'] minTtl =
    .error .expired := by rfl

end StudioWorker.SttStream
