import Mathlib.Algebra.GroupWithZero.Nat
import StudioWorker.Catalog
import Mathlib.Algebra.Order.Ring.Rat
import Mathlib.Algebra.BigOperators.Group.List.Basic

/-!
# Admission — does a load or a transient job fit (`src/admission.rs`)

Memory is in GiB, over exact rationals.
-/

namespace StudioWorker

/-- Device memory kept free for runtime overheads (`ADMISSION_MARGIN_GIB`). -/
def admissionMarginGib : ℚ := 1

/-- Host memory kept free beside a job's weights (`HOST_RAM_MARGIN_GIB`). -/
def hostRamMarginGib : ℚ := 4

/-- What the memory probe answers at one moment. -/
structure Probe where
  freeGib : Option ℚ
  totalGib : Option ℚ
  hostAvailableGib : Option ℚ
deriving DecidableEq

/-- Which memory a job was refused. -/
inductive MemoryKind where
  | device
  | host
deriving DecidableEq, Repr

/-- Host memory a job on `source` needs: its files' sizes when its engine copies every weight into
host memory. -/
def hostNeedGib (source : ModelSource) : Option ℚ :=
  let d := source.cliDefaults
  if d.offloadToCpu ≠ some true ∨ d.mmap = some true then none
  else some ((source.files.filterMap (·.approxBytes)).sum / (1024 * 1024 * 1024))

/-- What a transient job needs. -/
structure MemoryNeed where
  deviceGib : ℚ
  hostGib : Option ℚ
deriving DecidableEq

def MemoryNeed.of (deviceGib : ℚ) (source : ModelSource) : MemoryNeed :=
  ⟨deviceGib, hostNeedGib source⟩

/-- How much device memory is free, and how we know. -/
inductive FreeMemory where
  | probed (gib : ℚ)
  | accounted (totalGib loadedGib : ℚ)
  | unknown
deriving DecidableEq

def FreeMemory.gib : FreeMemory → ℚ
  | probed gib => gib
  | accounted totalGib loadedGib => max (totalGib - loadedGib) 0
  | unknown => 0

/-- A load or job that does not fit. -/
structure Refused where
  memory : MemoryKind
  neededGib : ℚ
  freeGib : ℚ
  marginGib : ℚ
deriving DecidableEq

/-- The nearest natural number to one that is not negative, the even one of two. -/
def roundHalfEven (q : ℚ) : ℕ :=
  let n := q.floor.toNat
  if 1 / 2 < q - n ∨ (q - n = 1 / 2 ∧ n % 2 = 1) then n + 1 else n

/-- A number with two decimals. -/
def fixed2 (q : ℚ) : String :=
  let sign := if q < 0 then "-" else ""
  let hundredths := roundHalfEven (|q| * 100)
  s!"{sign}{hundredths / 100}.{hundredths / 10 % 10}{hundredths % 10}"

def Refused.message (r : Refused) : String :=
  let (memory, free) := match r.memory with
    | .device => ("device", "free")
    | .host => ("host", "available")
  s!"insufficient {memory} memory: needs {fixed2 r.neededGib} GiB, {fixed2 r.freeGib} GiB {free} " ++
    s!"({fixed2 r.marginGib} GiB kept in reserve)"

example : Refused.message ⟨.device, 49 / 8, 5 / 2, 1⟩ =
    "insufficient device memory: needs 6.12 GiB, 2.50 GiB free (1.00 GiB kept in reserve)" := by
  decide +kernel

/-- Free memory now, falling back to accounting when the device cannot be probed. -/
def freeNow (probe : Probe) (loadedGib : ℚ) : FreeMemory :=
  match probe.freeGib with
  | some gib => .probed gib
  | none =>
    match probe.totalGib with
    | some totalGib => .accounted totalGib loadedGib
    | none => .unknown

/-- `admission::admit`: admit `neededGib` if it fits in `free` minus the reserve. -/
def admitDevice (neededGib : ℚ) (free : FreeMemory) : Except Refused Unit :=
  if free ≠ .unknown ∧ neededGib ≤ free.gib - admissionMarginGib then .ok ()
  else .error ⟨.device, neededGib, free.gib, admissionMarginGib⟩

/-- Admit `neededGib` of host memory if it fits in `availableGib` minus the reserve. -/
def admitHost (neededGib availableGib : ℚ) : Except Refused Unit :=
  if neededGib ≤ availableGib - hostRamMarginGib then .ok ()
  else .error ⟨.host, neededGib, availableGib, hostRamMarginGib⟩

/-- Credit memory a swap will free to the measured free memory. -/
def credit (free : FreeMemory) (freedGib : ℚ) : FreeMemory :=
  match free with
  | .unknown => .unknown
  | other => if freedGib = 0 then other else .probed (other.gib + freedGib)

theorem admitDevice_ok {neededGib : ℚ} {free : FreeMemory} (h : admitDevice neededGib free = .ok ()) :
    free ≠ .unknown ∧ neededGib ≤ free.gib - admissionMarginGib := by
  unfold admitDevice at h
  split_ifs at h with hc
  exact hc

/-- Every refusal names the need it refused and the memory it was measured against. -/
theorem admitDevice_error {neededGib : ℚ} {free : FreeMemory} {r : Refused}
    (h : admitDevice neededGib free = .error r) :
    r = ⟨.device, neededGib, free.gib, admissionMarginGib⟩ := by
  unfold admitDevice at h
  split_ifs at h with hc
  exact (Except.error.inj h).symm

/-- The credit counts in full wherever memory is known. -/
theorem credit_gib {free : FreeMemory} {freedGib : ℚ} (h : free ≠ .unknown) :
    (credit free freedGib).gib = free.gib + freedGib := by
  cases free with
  | unknown => exact absurd rfl h
  | probed gib =>
    unfold credit
    split_ifs with h0
    · rw [h0, add_zero]
    · rfl
  | accounted totalGib loadedGib =>
    unfold credit
    split_ifs with h0
    · rw [h0, add_zero]
    · rfl

theorem credit_unknown {free : FreeMemory} {freedGib : ℚ} :
    credit free freedGib = .unknown ↔ free = .unknown := by
  cases free <;> simp [credit] <;> split_ifs <;> simp

end StudioWorker
