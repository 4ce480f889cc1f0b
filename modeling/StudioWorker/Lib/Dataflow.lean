import Mathlib.Data.Set.Function
import Mathlib.Data.List.Basic
import Mathlib.Logic.Function.Basic

/-!
# Lib.Dataflow — straight-line programs over named values

A node reads names and defines others.  Names, operators and values are arbitrary, and an operator
may fail: `sem o args k` is the `k`-th value it gives.

* `Ordered known nodes`: every name is defined before it is read.
* `run`: what the names are bound to after the nodes.
* `run_rename`: a program under other names computes the same.
-/

namespace Lib.Dataflow

variable {O N V : Type*}

structure Node (O N : Type*) where
  op : O
  inputs : List N
  outputs : List N

/-- What a list of nodes defines. -/
def defines (nodes : List (Node O N)) : List N := nodes.flatMap (·.outputs)

/-- Every name is known, or defined by an earlier node, where it is read. -/
def Ordered (known : List N) : List (Node O N) → Prop
  | [] => True
  | n :: nodes => (∀ i ∈ n.inputs, i ∈ known) ∧ Ordered (known ++ n.outputs) nodes

variable {known : List N} {nodes : List (Node O N)}

theorem ordered_append {nodes' : List (Node O N)} :
    Ordered known (nodes ++ nodes') ↔
      Ordered known nodes ∧ Ordered (known ++ defines nodes) nodes' := by
  induction nodes generalizing known with
  | nil =>
    show Ordered known nodes' ↔ True ∧ Ordered (known ++ []) nodes'
    rw [List.append_nil, true_and]
  | cons n nodes ih =>
    show _ ∧ Ordered _ (nodes ++ nodes') ↔ (_ ∧ _) ∧ Ordered (known ++ (n.outputs ++ _)) nodes'
    rw [ih, and_assoc, ← List.append_assoc]
    rfl

/-- What is read is known or defined. -/
theorem Ordered.read (h : Ordered known nodes) {n : Node O N} (hn : n ∈ nodes) {i : N}
    (hi : i ∈ n.inputs) : i ∈ known ++ defines nodes := by
  induction nodes generalizing known with
  | nil => cases hn
  | cons m nodes ih =>
    show i ∈ known ++ (m.outputs ++ defines nodes)
    rw [← List.append_assoc]
    rcases List.mem_cons.mp hn with rfl | hn
    · exact List.mem_append_left _ (List.mem_append_left _ (h.1 i hi))
    · exact ih h.2 hn

section Rename

variable {M : Type*} (f : N → M)

def Node.rename (n : Node O N) : Node O M := ⟨n.op, n.inputs.map f, n.outputs.map f⟩

theorem defines_rename (nodes : List (Node O N)) :
    defines (nodes.map (Node.rename f)) = (defines nodes).map f := by
  rw [defines, defines, List.flatMap_map, List.map_flatMap]
  rfl

variable {f}

theorem Ordered.rename {known' : List M} (h : Ordered known nodes)
    (hknown : ∀ i ∈ known, f i ∈ known') : Ordered known' (nodes.map (Node.rename f)) := by
  induction nodes generalizing known known' with
  | nil => trivial
  | cons n nodes ih =>
    refine ⟨fun j hj => ?_, ih h.2 fun i hi => ?_⟩
    · obtain ⟨i, hi, rfl⟩ := List.mem_map.mp hj
      exact hknown i (h.1 i hi)
    · rcases List.mem_append.mp hi with hi | hi
      · exact List.mem_append_left _ (hknown i hi)
      · exact List.mem_append_right _ (List.mem_map_of_mem hi)

end Rename

/-! ## What a program computes -/

/-- What an operator gives, by the position of the value. -/
abbrev Semantics (O V : Type*) := O → List V → ℕ → Option V

section Run

variable [DecidableEq N] (sem : Semantics O V)

/-- Bind some names to values by their positions, from `k` on. -/
def bindFrom (values : ℕ → Option V) : ℕ → List N → (N → Option V) → Option (N → Option V)
  | _, [], env => some env
  | k, name :: names, env =>
    (values k).bind fun v => bindFrom values (k + 1) names (Function.update env name (some v))

def Node.run (env : N → Option V) (n : Node O N) : Option (N → Option V) :=
  (n.inputs.mapM env).bind fun args => bindFrom (sem n.op args) 0 n.outputs env

def run (env : N → Option V) (nodes : List (Node O N)) : Option (N → Option V) :=
  nodes.foldlM (Node.run sem) env

variable {sem} {env env₁ : N → Option V}

theorem run_cons (n : Node O N) :
    run sem env (n :: nodes) = (n.run sem env).bind fun env => run sem env nodes :=
  List.foldlM_cons

theorem run_append (nodes' : List (Node O N)) :
    run sem env (nodes ++ nodes') = (run sem env nodes).bind fun env => run sem env nodes' :=
  List.foldlM_append

theorem bindFrom_of_notMem {values : ℕ → Option V} {k : ℕ} {names : List N} {t : N}
    (h : bindFrom values k names env = some env₁) (ht : t ∉ names) : env₁ t = env t := by
  induction names generalizing k env with
  | nil => rw [Option.some.inj h]
  | cons name names ih =>
    obtain ⟨v, -, h⟩ := Option.bind_eq_some_iff.mp h
    have hne : t ≠ name := by
      rintro rfl
      exact ht List.mem_cons_self
    rw [ih h fun hmem => ht (List.mem_cons_of_mem _ hmem), Function.update_of_ne hne]

/-- A name that is not defined keeps its value. -/
theorem run_of_notMem {t : N} (h : run sem env nodes = some env₁) (ht : t ∉ defines nodes) :
    env₁ t = env t := by
  induction nodes generalizing env with
  | nil => rw [← Option.some.inj h]
  | cons n nodes ih =>
    have ht : t ∉ n.outputs ∧ t ∉ defines nodes := not_or.mp fun hor => ht (List.mem_append.mpr hor)
    rw [run_cons] at h
    obtain ⟨env₂, hstep, h⟩ := Option.bind_eq_some_iff.mp h
    obtain ⟨args, -, hbind⟩ := Option.bind_eq_some_iff.mp hstep
    rw [ih h ht.2, bindFrom_of_notMem hbind ht.1]

omit [DecidableEq N] in
theorem mapM_isSome {names : List N} (h : ∀ i ∈ names, (env i).isSome) :
    (names.mapM env).isSome := by
  induction names with
  | nil => rfl
  | cons name names ih =>
    obtain ⟨v, hv⟩ := Option.isSome_iff_exists.mp (h name List.mem_cons_self)
    obtain ⟨vs, hvs⟩ := Option.isSome_iff_exists.mp
      (ih fun i hi => h i (List.mem_cons_of_mem _ hi))
    rw [List.mapM_cons, hv, hvs]
    rfl

theorem bindFrom_isSome {values : ℕ → Option V} (h : ∀ k, (values k).isSome) (k : ℕ)
    (names : List N) (env : N → Option V) :
    ∃ env₁, bindFrom values k names env = some env₁ ∧
      ∀ i, (env₁ i).isSome ↔ i ∈ names ∨ (env i).isSome := by
  induction names generalizing k env with
  | nil => exact ⟨env, rfl, fun i => by simp⟩
  | cons name names ih =>
    obtain ⟨v, hv⟩ := Option.isSome_iff_exists.mp (h k)
    obtain ⟨env₁, hrun, hsome⟩ := ih (k + 1) (Function.update env name (some v))
    refine ⟨env₁, ?_, fun i => ?_⟩
    · rw [bindFrom, hv, Option.bind_some, hrun]
    · rw [hsome, List.mem_cons]
      by_cases hi : i = name
      · rw [hi, Function.update_self]
        simp
      · rw [Function.update_of_ne hi]
        simp [hi]

/-- Where no operator fails, a program whose names are known where they are read does not fail. -/
theorem run_isSome (hsem : ∀ o args k, (sem o args k).isSome) (h : Ordered known nodes)
    (hknown : ∀ i ∈ known, (env i).isSome) : (run sem env nodes).isSome := by
  induction nodes generalizing known env with
  | nil => rfl
  | cons n nodes ih =>
    obtain ⟨args, hargs⟩ := Option.isSome_iff_exists.mp
      (mapM_isSome fun i hi => hknown i (h.1 i hi))
    obtain ⟨env₂, hbind, hsome⟩ := bindFrom_isSome (fun k => hsem n.op args k) 0 n.outputs env
    rw [run_cons, Node.run, hargs, Option.bind_some, hbind, Option.bind_some]
    refine ih h.2 fun i hi => ?_
    rw [hsome]
    rcases List.mem_append.mp hi with hi | hi
    · exact Or.inr (hknown i hi)
    · exact Or.inl hi

end Run

/-! ## Under other names -/

section Simulate

variable {M : Type*} [DecidableEq N] [DecidableEq M] {sem : Semantics O V} {f : N → M}

/-- The two bind the same, through `f`, as far as the names of `S` go. -/
def Same (f : N → M) (S : Set N) (env : N → Option V) (env' : M → Option V) : Prop :=
  ∀ i ∈ S, env i = env' (f i)

variable {env : N → Option V} {env' : M → Option V} {S : Set N}

theorem Same.update (hinj : Set.InjOn f S) (h : Same f S env env') {name : N} (hname : name ∈ S)
    (v : Option V) :
    Same f S (Function.update env name v) (Function.update env' (f name) v) := by
  intro i hi
  by_cases heq : i = name
  · rw [heq, Function.update_self, Function.update_self]
  · rw [Function.update_of_ne heq, Function.update_of_ne fun hf => heq (hinj hi hname hf), h i hi]

omit [DecidableEq N] [DecidableEq M] in
/-- A name is bound to the same after both, or both fail. -/
theorem bind_eq_of_rel {x : Option (N → Option V)} {y : Option (M → Option V)}
    (h : Option.Rel (Same f S) x y) {i : N} (hi : i ∈ S) :
    (y.bind fun env' => env' (f i)) = x.bind fun env => env i := by
  cases h with
  | none => rfl
  | some hsame => exact (hsame i hi).symm

theorem rel_bind {α β γ δ : Type*} {R : α → β → Prop} {Q : γ → δ → Prop} {x : Option α}
    {y : Option β} {g : α → Option γ} {g' : β → Option δ} (h : Option.Rel R x y)
    (hg : ∀ a b, R a b → Option.Rel Q (g a) (g' b)) : Option.Rel Q (x.bind g) (y.bind g') := by
  cases h with
  | none => exact .none
  | some hab => exact hg _ _ hab

theorem bindFrom_rename (hinj : Set.InjOn f S) (h : Same f S env env') {names : List N}
    (hnames : ∀ i ∈ names, i ∈ S) (values : ℕ → Option V) (k : ℕ) :
    Option.Rel (Same f S) (bindFrom values k names env) (bindFrom values k (names.map f) env') := by
  induction names generalizing k env env' with
  | nil => exact .some h
  | cons name names ih =>
    rw [bindFrom, List.map_cons, bindFrom]
    rcases values k with _ | v
    · exact .none
    · exact ih (h.update hinj (hnames name List.mem_cons_self) _)
        (fun i hi => hnames i (List.mem_cons_of_mem _ hi)) (k + 1)

omit [DecidableEq N] [DecidableEq M] in
theorem mapM_rename (h : Same f S env env') {names : List N} (hnames : ∀ i ∈ names, i ∈ S) :
    (names.map f).mapM env' = names.mapM env := by
  induction names with
  | nil => rfl
  | cons name names ih =>
    rw [List.map_cons, List.mapM_cons, List.mapM_cons, ← h name (hnames name List.mem_cons_self),
      ih fun i hi => hnames i (List.mem_cons_of_mem _ hi)]

/-- A program under other names computes the same, when no two of its names become one. -/
theorem run_rename {known : List N} {nodes : List (Node O N)} (hordered : Ordered known nodes)
    (hS : ∀ i ∈ known ++ defines nodes, i ∈ S) (hinj : Set.InjOn f S) (h : Same f S env env') :
    Option.Rel (Same f S) (run sem env nodes) (run sem env' (nodes.map (Node.rename f))) := by
  induction nodes generalizing known env env' with
  | nil => exact .some h
  | cons n nodes ih =>
    have hS : ∀ i ∈ (known ++ n.outputs) ++ defines nodes, i ∈ S := by
      rw [List.append_assoc]
      exact hS
    rw [List.map_cons, run_cons, run_cons]
    refine rel_bind ?_ fun a b hab => ih hordered.2 hS hab
    have hinputs : ∀ i ∈ n.inputs, i ∈ S := fun i hi =>
      hS i (List.mem_append_left _ (List.mem_append_left _ (hordered.1 i hi)))
    have houtputs : ∀ i ∈ n.outputs, i ∈ S := fun i hi =>
      hS i (List.mem_append_left _ (List.mem_append_right _ hi))
    rw [Node.run, Node.run, Node.rename]
    dsimp only
    rw [mapM_rename h hinputs]
    rcases n.inputs.mapM env with _ | args
    · exact .none
    · exact bindFrom_rename hinj h houtputs _ 0

end Simulate

end Lib.Dataflow
