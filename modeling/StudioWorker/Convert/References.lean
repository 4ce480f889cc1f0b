import StudioWorker.Convert.Prng
import StudioWorker.Lib.Fallible
import StudioWorker.Lib.Shuffle

/-!
# Convert.References — the labels shown as references (`python/convert/__main__.py`)

* `pickReferences`: as in the source; `pickNext` is the loop's body.
* `reached`: the loop's variables after some turns, by the stream alone.
* `pickReferences_spec`: what is picked.
-/

namespace StudioWorker.Convert

open Text Lib.Shuffle

/-- The variables of the loop. -/
structure Picking where
  stream : SplitMix64
  order : List ℕ
  picked : List ℕ

/-- `l[i]`. -/
def item (l : List ℕ) (i : ℕ) : Except Text ℕ :=
  match l[i]? with
  | some x => .ok x
  | none => .error "list index out of range".toList

def pickNext (st : Picking) (i : ℕ) : Except Text Picking := do
  let (drawn, stream) ← st.stream.below (st.order.length - i)
  let j := i + drawn
  let atJ ← item st.order j
  let atI ← item st.order i
  let order := (st.order.set i atJ).set j atI
  let last ← item order i
  return ⟨stream, order, st.picked ++ [last]⟩

/-- `count` distinct label indices, by seed: a partial Fisher-Yates shuffle of the labels. -/
def pickReferences (labels : List Text) (seed count : ℕ) : Except Text (List ℕ) := do
  let order := List.range labels.length
  let start := ⟨SplitMix64.keyed seed "references".toList, order, []⟩
  let done ← (List.range (min count order.length)).foldlM pickNext start
  return done.picked

variable (stream : SplitMix64) (n : ℕ)

/-- How far after its place each of `n` labels is looked for. -/
def draws (i : ℕ) : ℕ := stream.offset (n - i) i

def order (i : ℕ) : List ℕ := shuffled (draws stream n) (List.range n) i

/-- The loop after `i` turns. -/
def reached (i : ℕ) : Picking := ⟨stream.drawn i, order stream n i, (order stream n i).take i⟩

variable {stream n}

theorem length_order (i : ℕ) : (order stream n i).length = n := by
  rw [order, length_shuffled, List.length_range]

theorem item_of_lt {l : List ℕ} {i : ℕ} (h : i < l.length) : item l i = .ok l[i] := by
  rw [item, List.getElem?_eq_getElem h]

/-- Every draw stays among the labels not picked yet, so no turn fails. -/
theorem pickNext_reached {i : ℕ} (hi : i < n) :
    pickNext (reached stream n i) i = .ok (reached stream n (i + 1)) := by
  have hlen : (order stream n i).length = n := length_order i
  have hrest : 0 < n - i := Nat.sub_pos_of_lt hi
  have hdraw : draws stream n i < n - i := stream.offset_lt hrest i
  have hi' : i < (order stream n i).length := by omega
  have hj : i + draws stream n i < (order stream n i).length := by omega
  have hnext : order stream n (i + 1) =
      ((order stream n i).set i (order stream n i)[i + draws stream n i]).set
        (i + draws stream n i) (order stream n i)[i] := by
    rw [order, shuffled]
    exact exchange_of_lt hi' hj
  have hi'' : i < (order stream n (i + 1)).length := by rw [length_order]; exact hi
  have hpicked : (order stream n i).take i ++ [(order stream n (i + 1))[i]] =
      (order stream n (i + 1)).take (i + 1) := by
    rw [List.take_succ_eq_append_getElem hi'']
    congr 1
    exact (take_shuffled (Nat.le_succ i)).symm
  have hbelow : (stream.drawn i).below ((order stream n i).length - i) =
      .ok (draws stream n i, stream.drawn (i + 1)) := by
    rw [hlen]
    exact stream.below_drawn hrest i
  rw [pickNext]
  dsimp only [reached]
  rw [hbelow]
  dsimp only [bind, Except.bind]
  rw [item_of_lt hj, item_of_lt hi']
  dsimp only
  rw [← hnext, item_of_lt hi'']
  dsimp only
  rw [hpicked]
  rfl

/-- The loop, turn by turn. -/
theorem foldlM_pickNext {k : ℕ} (hk : k ≤ n) :
    (List.range k).foldlM pickNext (reached stream n 0) = .ok (reached stream n k) := by
  induction k with
  | zero => rfl
  | succ k ih =>
    rw [List.range_succ, List.foldlM_append, ih (Nat.le_of_succ_le hk)]
    dsimp only [bind, Except.bind]
    rw [List.foldlM_cons, pickNext_reached hk]
    rfl

theorem order_perm (i : ℕ) : (order stream n i).Perm (List.range n) := shuffled_perm i

theorem take_order {a b : ℕ} (h : a ≤ b) :
    (order stream n b).take a = (order stream n a).take a := take_shuffled h

theorem pickReferences_eq (labels : List Text) (seed count : ℕ) :
    pickReferences labels seed count =
      .ok ((order (SplitMix64.keyed seed "references".toList) labels.length
        (min count labels.length)).take (min count labels.length)) := by
  rw [pickReferences, List.length_range]
  have hloop := @foldlM_pickNext (SplitMix64.keyed seed "references".toList) _ _
    (Nat.min_le_right count labels.length)
  have hstart : reached (SplitMix64.keyed seed "references".toList) labels.length 0 =
      ⟨SplitMix64.keyed seed "references".toList, List.range labels.length, []⟩ := rfl
  rw [← hstart, hloop]
  rfl

/-- As many distinct labels are picked as asked for and there, and asking for fewer picks the first
of them. -/
theorem pickReferences_spec (labels : List Text) (seed count : ℕ) :
    ∃ picked, pickReferences labels seed count = .ok picked ∧
      picked.length = min count labels.length ∧ picked.Nodup ∧
      (∀ i ∈ picked, i < labels.length) ∧
      ∀ fewer ≤ count, pickReferences labels seed fewer = .ok (picked.take fewer) := by
  refine ⟨_, pickReferences_eq labels seed count, ?_, ?_, ?_, ?_⟩
  · rw [List.length_take, length_order]
    omega
  · exact ((order_perm _).nodup_iff.mpr List.nodup_range).sublist (List.take_sublist _ _)
  · intro i hi
    exact List.mem_range.mp ((order_perm _).subset (List.mem_of_mem_take hi))
  · intro fewer hfewer
    rw [pickReferences_eq, List.take_take]
    have hmin : min fewer (min count labels.length) = min fewer labels.length := by omega
    rw [hmin]
    exact congrArg Except.ok (take_order (by omega)).symm

end StudioWorker.Convert
