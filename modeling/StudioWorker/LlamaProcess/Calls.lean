import StudioWorker.LlamaProcess.Order

/-!
# LlamaProcess.Calls — what a run keeps of the daemon's calls

* `Inv`: the order of the call in progress, and that every call before it ended once.
* `Timely`, `Owned`: no line of stderr outlives its call where each reply is taken after them.
* `Daemon.run_sound_of_timely`: the calls of a run.
-/

namespace StudioWorker.LlamaProcess

open Lib Lib.System

variable {R : Type} {wire : R → Option R} {d d' : Daemon R} {e : DaemonEvent R}

/-! ## The invariant -/

structure Inv (wire : R → Option R) (d : Daemon R) : Prop where
  live : d.call.isSome → d.process.isSome
  decodable : ∀ c ∈ d.call, (wire c.request).isSome
  ordered : ∀ p ∈ d.process, Ordered wire d.call p (p.pipe d.lines)
  noted : ∀ n ∈ d.notes, n.ofStderr = false → n.Sound
  numbered : d.notes.filterMap Note.ends ++ (d.call.map (·.number)).toList = List.range d.next

/-- The process reads what the daemon asks. -/
def Decodable (wire : R → Option R) : DaemonEvent R → Prop
  | .call request => (wire request).isSome
  | _ => True

instance (wire : R → Option R) (e : DaemonEvent R) : Decidable (Decodable wire e) :=
  match e with
  | .call request => inferInstanceAs (Decidable (wire request).isSome)
  | .restart | .cancel | .take | .fail | .unload | .process _ => isTrue trivial

namespace Inv

theorem new : Inv wire (Daemon.new : Daemon R) where
  live h := h
  decodable c hc := by cases hc
  ordered p hp := by cases hp
  noted n hn := by cases hn
  numbered := rfl

/-- A sound note that ends no call is added. -/
theorem note {n : Note} (h : Inv wire d) (hn : n.ofStderr = false → n.Sound)
    (hends : n.ends = none) : Inv wire (d.note n) where
  live := h.live
  decodable := h.decodable
  ordered := h.ordered
  noted m hm := by
    rcases List.mem_append.mp hm with hm | hm
    · exact h.noted m hm
    · rw [List.mem_singleton.mp hm]
      exact hn
  numbered := by
    have := h.numbered
    simpa [Daemon.note, hends] using this

/-- The call in progress ends with a sound note. -/
theorem ended {n : Note} {c : Call R} (h : Inv wire d) (hc : d.call = some c) (hn : n.Sound)
    (hends : n.ends = some c.number) (hd : d'.notes = d.notes ++ [n]) (hcall : d'.call = none)
    (hnext : d'.next = d.next) (hp : ∀ p ∈ d'.process, Ordered wire none p (p.pipe d'.lines)) :
    Inv wire d' where
  live h := by
    rw [hcall] at h
    cases h
  decodable c hc := by
    rw [hcall] at hc
    cases hc
  ordered := by
    rw [hcall]
    exact hp
  noted m hm := by
    rw [hd] at hm
    rcases List.mem_append.mp hm with hm | hm
    · exact h.noted m hm
    · rw [List.mem_singleton.mp hm]
      exact fun _ => hn
  numbered := by
    have := h.numbered
    rw [hc] at this
    rw [hd, hcall, hnext, ← this, List.filterMap_append]
    simp [hends]

/-- The call in progress takes what comes next. -/
theorem take {c : Call R} {p : Process R} {line : Delivered} {rest : List Delivered}
    (h : Inv wire d) (hc : d.call = some c) (hp : d.process = some p)
    (hlines : d.lines = line :: rest) : Inv wire ({ d with lines := rest }.take c p line) := by
  have ho := h.ordered p hp
  rw [hc, hlines] at ho
  -- Where a line changes neither the call nor the pipe, only the line is gone.
  have hrest {d' : Daemon R} (hd : d' = { d with lines := rest, ending := d'.ending })
      (ho : Ordered wire (some c) p (p.pipe rest)) : Inv wire d' := by
    rw [hd]
    refine ⟨h.live, h.decodable, fun q hq => ?_, h.noted, h.numbered⟩
    obtain rfl := Option.some.inj (hp.symm.trans hq)
    exact hc ▸ ho
  cases line with
  | out line =>
    cases line with
    | log of message =>
      refine (hrest rfl ho.takeLog).note (fun _ => ?_) rfl
      cases of with
      | none => exact .inl rfl
      | some k =>
        obtain ⟨c', hc', hk⟩ := ho.tagged _ List.mem_cons_self k rfl
        obtain rfl := Option.some.inj hc'
        exact .inr (congrArg some hk)
    | piece of text =>
      obtain ⟨hk, ho⟩ := ho.takePiece
      have h' : Inv wire { d with
          lines := rest, call := some { c with forwarded := c.forwarded ++ [text] } } := by
        refine ⟨fun _ => h.live (by rw [hc]; rfl), fun c' hc' => ?_, fun q hq => ?_, h.noted, ?_⟩
        · obtain rfl := Option.some.inj hc'
          exact h.decodable c hc
        · obtain rfl := Option.some.inj (hp.symm.trans hq)
          exact ho
        · have := h.numbered
          rw [hc] at this
          exact this
      exact h'.note (fun _ => .inr (congrArg some hk)) rfl
    | reply of reply =>
      obtain ⟨hk, hf, ho⟩ := ho.takeReply
      refine h.ended (n := .answered c.number of reply c.forwarded p.written) hc ⟨hk, hf⟩ rfl rfl
        rfl rfl fun q hq => ?_
      obtain rfl := Option.some.inj (hp.symm.trans hq)
      exact ho
  | err of text => exact (hrest rfl ho).note (fun h => by cases h) rfl
  | closed => exact hrest rfl ho

/-- Every step keeps the invariant when the process can read what is asked. -/
theorem step (h : Inv wire d) (hdec : Decodable wire e) (hstep : Daemon.step wire d e = some d') :
    Inv wire d' := by
  cases e with
  | restart =>
    simp only [Daemon.step] at hstep
    split at hstep
    · rename_i hc hp
      obtain rfl := Option.some.inj hstep
      refine ⟨fun _ => rfl, h.decodable, fun p hp => ?_, h.noted, h.numbered⟩
      obtain rfl := Option.some.inj hp
      change Ordered wire d.call Process.new []
      rw [hc]
      exact .new
    · cases hstep
  | call request =>
    simp only [Daemon.step] at hstep
    split at hstep
    · rename_i p hc hp
      obtain rfl := Option.some.inj hstep
      have ho := h.ordered p hp
      rw [hc] at ho
      refine ⟨fun _ => rfl, fun c hc => ?_, fun q hq => ?_, h.noted, ?_⟩
      · obtain rfl := Option.some.inj hc
        exact hdec
      · obtain rfl := Option.some.inj hq
        exact ho.asked d.next request
      · have := h.numbered
        rw [hc, Option.map_none, Option.toList_none, List.append_nil] at this
        rw [this, List.range_succ]
        rfl
    · cases hstep
  | cancel =>
    simp only [Daemon.step] at hstep
    split at hstep
    · rename_i c p hc hp _
      obtain rfl := Option.some.inj hstep
      refine ⟨fun _ => rfl, h.decodable, fun q hq => ?_, h.noted, h.numbered⟩
      obtain rfl := Option.some.inj hq
      have ho := h.ordered p hp
      rw [hc] at ho
      change Ordered wire d.call _ _
      rw [hc]
      exact ho.cancel
    · cases hstep
  | take =>
    simp only [Daemon.step] at hstep
    split at hstep
    · rename_i c p line rest hc hp hlines
      obtain rfl := Option.some.inj hstep
      exact h.take hc hp hlines
    · cases hstep
  | fail =>
    simp only [Daemon.step] at hstep
    split at hstep
    · rename_i c p hc hp _
      obtain rfl := Option.some.inj hstep
      have ho := h.ordered p hp
      rw [hc] at ho
      refine h.ended (n := .failed c.number c.forwarded p.written) hc ho.forwarded_prefix rfl rfl
        rfl rfl fun q hq => ?_
      cases hq
    · cases hstep
  | unload =>
    simp only [Daemon.step] at hstep
    split at hstep
    · rename_i hc
      obtain rfl := Option.some.inj hstep
      refine ⟨fun hcall => ?_, h.decodable, fun q hq => ?_, h.noted, h.numbered⟩
      · rw [hc] at hcall
        cases hcall
      · cases hq
    · cases hstep
  | process event =>
    simp only [Daemon.step, Option.bind_eq_some_iff, Option.map_eq_some_iff] at hstep
    obtain ⟨p, hp, ⟨p', line, note⟩, hp', rfl⟩ := hstep
    obtain ⟨ho, hn⟩ := p.step_ordered h.decodable (h.ordered p hp) hp'
    refine ⟨fun _ => rfl, h.decodable, fun q hq => ?_, fun n hmem => ?_, ?_⟩
    · obtain rfl := Option.some.inj hq
      exact ho
    · rcases List.mem_append.mp hmem with hmem | hmem
      · exact h.noted n hmem
      · exact fun _ => (hn n (Option.mem_toList.mp hmem)).1
    · have hnote : note.toList.filterMap Note.ends = [] :=
        List.filterMap_eq_nil_iff.mpr fun n hmem => (hn n (Option.mem_toList.mp hmem)).2
      rw [List.filterMap_append, hnote, List.append_nil]
      exact h.numbered

end Inv

/-! ## The lines of stderr -/

def Delivered.err? : Delivered → Option (Option ℕ)
  | .err of _ => some of
  | _ => none

/-- The calls of the stderr lines on their way to the daemon. -/
def Process.errs (p : Process R) (lines : List Delivered) : List (Option ℕ) :=
  lines.filterMap Delivered.err? ++ p.stderr.map (·.1)

/-- No line of stderr on its way, and none that was taken, is another call's. -/
structure Owned (d : Daemon R) : Prop where
  errs : ∀ p ∈ d.process, ∀ k, some k ∈ p.errs d.lines → ∃ c ∈ d.call, k = c.number
  noted : ∀ n ∈ d.notes, n.ofStderr = true → n.Sound

def Delivered.isReply : Delivered → Bool
  | .out line => line.isReply
  | _ => false

/-- The reply is taken behind every line of stderr of its call. -/
def Timely (d : Daemon R) : DaemonEvent R → Prop
  | .take => ∀ c ∈ d.call, ∀ p ∈ d.process, ∀ l ∈ d.lines.head?, l.isReply = true →
      some c.number ∉ p.errs d.lines.tail
  | _ => True

instance (d : Daemon R) (e : DaemonEvent R) : Decidable (Timely d e) :=
  match e with
  | .take => inferInstanceAs (Decidable (∀ c ∈ d.call, ∀ p ∈ d.process, ∀ l ∈ d.lines.head?,
      l.isReply = true → some c.number ∉ p.errs d.lines.tail))
  | .restart | .call _ | .cancel | .fail | .unload | .process _ => isTrue trivial

/-- A step of the process adds a line of the request being served at most. -/
theorem Process.step_errs {p p' : Process R} {lines : List Delivered} {event : ProcessEvent}
    {line : Option Delivered} {note : Option Note}
    (hstep : p.step wire event = some (p', line, note)) {k : ℕ}
    (hk : some k ∈ p'.errs (lines ++ line.toList)) : some k ∈ p.errs lines ∨ k ∈ p.current := by
  -- All but three steps leave stderr as it was.
  have hsame (hline : line = none) (hstderr : p'.stderr = p.stderr) :
      some k ∈ p.errs lines ∨ k ∈ p.current := by
    rw [hline, Option.toList_none, List.append_nil, Process.errs, hstderr] at hk
    exact .inl hk
  cases event with
  | read =>
    simp only [Process.step, Option.ite_none_right_eq_some, Option.map_eq_some_iff] at hstep
    obtain ⟨-, q, hread, heq⟩ := hstep
    simp only [Prod.mk.injEq] at heq
    obtain ⟨rfl, rfl, rfl⟩ := heq
    refine hsame rfl ?_
    unfold Process.read at hread
    split at hread
    · obtain rfl := Option.some.inj hread
      rfl
    · split at hread <;> obtain rfl := Option.some.inj hread <;> rfl
    · cases hread
  | print text =>
    simp only [Process.step, Option.ite_none_right_eq_some, Option.some.injEq,
      Prod.mk.injEq] at hstep
    obtain ⟨-, rfl, rfl, rfl⟩ := hstep
    rw [Option.toList_none, List.append_nil, Process.errs, List.map_append,
      ← List.append_assoc] at hk
    rcases List.mem_append.mp hk with hk | hk
    · exact .inl hk
    · exact .inr (List.mem_singleton.mp hk).symm
  | forwardErr =>
    simp only [Process.step] at hstep
    split at hstep
    · rename_i text rest hstderr
      simp only [Option.some.injEq, Prod.mk.injEq] at hstep
      obtain ⟨rfl, rfl, rfl⟩ := hstep
      rw [Process.errs, List.filterMap_append, List.append_assoc] at hk
      rw [Process.errs, hstderr]
      exact .inl hk
    · cases hstep
  | forwardOut =>
    simp only [Process.step] at hstep
    split at hstep
    · simp only [Option.some.injEq, Prod.mk.injEq] at hstep
      obtain ⟨rfl, rfl, rfl⟩ := hstep
      rw [Process.errs, List.filterMap_append, List.append_assoc] at hk
      exact .inl hk
    · cases hstep
  | closeOut =>
    simp only [Process.step, Option.ite_none_right_eq_some, Option.some.injEq,
      Prod.mk.injEq] at hstep
    obtain ⟨-, rfl, rfl, rfl⟩ := hstep
    rw [Process.errs, List.filterMap_append, List.append_assoc] at hk
    exact .inl hk
  | log | dies =>
    simp only [Process.step, Option.ite_none_right_eq_some, Option.some.injEq,
      Prod.mk.injEq] at hstep
    obtain ⟨-, rfl, rfl, rfl⟩ := hstep
    exact hsame rfl rfl
  | pass | serve | check | piece | answer =>
    simp only [Process.step] at hstep
    split at hstep
    · simp only [Option.some.injEq, Prod.mk.injEq] at hstep
      obtain ⟨rfl, rfl, rfl⟩ := hstep
      exact hsame rfl rfl
    · cases hstep

namespace Owned

theorem new : Owned (Daemon.new : Daemon R) where
  errs p hp := by cases hp
  noted n hn := by cases hn

theorem note {n : Note} (h : Owned d) (hn : n.ofStderr = true → n.Sound) : Owned (d.note n) where
  errs := h.errs
  noted m hm := by
    rcases List.mem_append.mp hm with hm | hm
    · exact h.noted m hm
    · rw [List.mem_singleton.mp hm]
      exact hn

/-- The call in progress takes what comes next; a reply is taken last. -/
theorem take {c : Call R} {p : Process R} {line : Delivered} {rest : List Delivered}
    (h : Owned d) (hc : d.call = some c) (hp : d.process = some p)
    (hlines : d.lines = line :: rest)
    (htimely : line.isReply = true → some c.number ∉ p.errs rest) :
    Owned ({ d with lines := rest }.take c p line) := by
  have herrs : ∀ k, some k ∈ p.errs rest → k = c.number := by
    intro k hk
    have hk' : some k ∈ p.errs d.lines := by
      rw [hlines]
      rcases List.mem_append.mp hk with hk | hk
      · obtain ⟨l, hl, hlk⟩ := List.mem_filterMap.mp hk
        exact List.mem_append_left _
          (List.mem_filterMap.mpr ⟨l, List.mem_cons_of_mem _ hl, hlk⟩)
      · exact List.mem_append_right _ hk
    obtain ⟨c', hc', hn⟩ := h.errs p hp k hk'
    obtain rfl := Option.some.inj (hc.symm.trans hc')
    exact hn
  have hrest {d' : Daemon R} (hprocess : d'.process = d.process) (hlines : d'.lines = rest)
      (hcall : ∃ c' ∈ d'.call, c.number = c'.number) (hnotes : d'.notes = d.notes) :
      Owned d' := by
    refine ⟨fun q hq k hk => ?_, by rw [hnotes]; exact h.noted⟩
    rw [hprocess, hp] at hq
    obtain rfl := Option.some.inj hq
    rw [hlines] at hk
    rw [herrs k hk]
    exact hcall
  have hgone : Owned { d with lines := rest } := hrest rfl rfl ⟨c, hc, rfl⟩ rfl
  cases line with
  | out line =>
    cases line with
    | log => exact hgone.note fun h => by cases h
    | piece of text =>
      have h' : Owned { d with
          lines := rest, call := some { c with forwarded := c.forwarded ++ [text] } } :=
        hrest rfl rfl ⟨_, rfl, rfl⟩ rfl
      exact h'.note fun h => by cases h
    | reply of reply =>
      have h' : Owned { d with lines := rest, call := none } := by
        refine ⟨fun q hq k hk => ?_, h.noted⟩
        obtain rfl := Option.some.inj (hp.symm.trans hq)
        rw [herrs k hk] at hk
        exact (htimely rfl hk).elim
      exact h'.note fun h => by cases h
  | err of text =>
    refine hgone.note fun _ => ?_
    cases of with
    | none => exact .inl rfl
    | some k =>
      obtain ⟨c', hc', hk⟩ := h.errs p hp k (by rw [hlines]; exact List.mem_cons_self)
      obtain rfl := Option.some.inj (hc.symm.trans hc')
      exact .inr (congrArg some hk)
  | closed => exact hrest rfl rfl ⟨c, hc, rfl⟩ rfl

theorem step (hinv : Inv wire d) (h : Owned d) (htimely : Timely d e)
    (hstep : Daemon.step wire d e = some d') : Owned d' := by
  cases e with
  | restart =>
    simp only [Daemon.step] at hstep
    split at hstep
    · obtain rfl := Option.some.inj hstep
      refine ⟨fun q hq k hk => ?_, h.noted⟩
      obtain rfl := Option.some.inj hq
      cases hk
    · cases hstep
  | call request =>
    simp only [Daemon.step] at hstep
    split at hstep
    · rename_i p hc hp
      obtain rfl := Option.some.inj hstep
      refine ⟨fun q hq k hk => ?_, h.noted⟩
      obtain rfl := Option.some.inj hq
      obtain ⟨c, hc', -⟩ := h.errs p hp k hk
      rw [hc] at hc'
      cases hc'
    · cases hstep
  | cancel =>
    simp only [Daemon.step] at hstep
    split at hstep
    · rename_i c p hc hp _
      obtain rfl := Option.some.inj hstep
      refine ⟨fun q hq k hk => ?_, h.noted⟩
      obtain rfl := Option.some.inj hq
      exact h.errs p hp k hk
    · cases hstep
  | take =>
    simp only [Daemon.step] at hstep
    split at hstep
    · rename_i c p line rest hc hp hlines
      obtain rfl := Option.some.inj hstep
      refine h.take hc hp hlines fun hreply => ?_
      have := htimely c hc p hp line (by rw [hlines]; rfl) hreply
      rw [hlines] at this
      exact this
    · cases hstep
  | fail =>
    simp only [Daemon.step] at hstep
    split at hstep
    · rename_i c p hc hp _
      obtain rfl := Option.some.inj hstep
      refine ⟨fun q hq => ?_, fun n hn => ?_⟩
      · cases hq
      · rcases List.mem_append.mp hn with hn | hn
        · exact h.noted n hn
        · rw [List.mem_singleton.mp hn]
          intro h
          cases h
    · cases hstep
  | unload =>
    simp only [Daemon.step] at hstep
    split at hstep
    · obtain rfl := Option.some.inj hstep
      refine ⟨fun q hq => ?_, h.noted⟩
      cases hq
    · cases hstep
  | process event =>
    simp only [Daemon.step, Option.bind_eq_some_iff, Option.map_eq_some_iff] at hstep
    obtain ⟨p, hp, ⟨p', line, note⟩, hp', rfl⟩ := hstep
    have ho := hinv.ordered p hp
    refine ⟨fun q hq k hk => ?_, fun n hmem => ?_⟩
    · obtain rfl := Option.some.inj hq
      rcases p.step_errs hp' hk with hk | hk
      · exact h.errs p hp k hk
      · exact ho.current_of hk
    · rcases List.mem_append.mp hmem with hmem | hmem
      · exact h.noted n hmem
      · exact fun _ => ((p.step_ordered hinv.decodable ho hp').2 n (Option.mem_toList.mp hmem)).1

end Owned

/-! ## The calls of a run -/

theorem Daemon.run_inv {es : List (DaemonEvent R)} (hdec : ∀ e ∈ es, Decodable wire e)
    (hr : run (Daemon.step wire) Daemon.new es = some d) : Inv wire d :=
  along_invariant (fun _ _ _ h hd hs => h.step hd hs) es _ _ .new (along_of_forall hdec) hr

/-- In every run that asks what the process can read, each reply is its call's own, its pieces
are forwarded once and in order, a cancel stops the request it was sent for alone and no line of
stdout is taken by another call; no line of stderr is either where each reply is taken behind
those of its call. -/
theorem Daemon.run_sound_of_timely {es : List (DaemonEvent R)}
    (hdec : ∀ e ∈ es, Decodable wire e) (hr : run (Daemon.step wire) Daemon.new es = some d) :
    (∀ n ∈ d.notes, n.ofStderr = false → n.Sound) ∧
      (Along (Daemon.step wire) Timely Daemon.new es → Sound d) := by
  refine ⟨(run_inv hdec hr).noted, fun htimely n hn => ?_⟩
  have hboth : Inv wire d ∧ Owned d :=
    along_invariant (I := fun d => Inv wire d ∧ Owned d)
      (fun _ _ _ h ha hs => ⟨h.1.step ha.1 hs, Owned.step h.1 h.2 ha.2 hs⟩) es _ _
      ⟨.new, .new⟩ ((along_of_forall hdec).and htimely) hr
  cases herr : n.ofStderr with
  | false => exact hboth.1.noted n hn herr
  | true => exact hboth.2.noted n hn herr

/-- One call, cancelled; the process prints a line while it serves it, then answers. -/
def served : List (DaemonEvent Text) :=
  [.restart, .call ['h', 'i'], .process .read, .process .pass, .process .serve,
    .process (.piece ['y', 'o']), .process (.print ['o', 'o', 'm']), .cancel, .process .read,
    .process .check, .process (.answer (.failed [] false)), .process .forwardOut]

/-- The printed line comes before the reply. -/
def printedFirst : List (DaemonEvent Text) :=
  served ++ [.process .forwardErr, .process .forwardOut, .take, .take, .take]

theorem printedFirst_sound_of_timely : ∃ d,
    run (Daemon.step some) Daemon.new printedFirst = some d ∧ d.notes.length = 4 ∧
      Along (Daemon.step some) Timely Daemon.new printedFirst ∧
      ((∀ n ∈ d.notes, n.ofStderr = false → n.Sound) ∧
        (Along (Daemon.step some) Timely Daemon.new printedFirst → Sound d)) :=
  exists_run (P := fun d => d.notes.length = 4) (by decide) fun _ hr hp =>
    ⟨hp, by decide, Daemon.run_sound_of_timely (by decide) hr⟩

/-- The printed line comes when the next call waits, which takes it. -/
theorem late_line_not_sound : ∃ d,
    run (Daemon.step some) Daemon.new
        (served ++ [.process .forwardOut, .take, .take, .call ['h', 'o'], .process .forwardErr,
          .take]) = some d ∧
      ¬ Sound d :=
  exists_run (P := fun d => ¬ Sound d) (by decide) fun _ _ hp => hp

end StudioWorker.LlamaProcess
