import StudioWorker.Lib.After
import StudioWorker.LlamaProcess.Serve

/-!
# LlamaProcess.Order — one request in one place

While a call waits its request is on stdin, past the reader thread, or answered on stdout, and
in one of these places only; so a cancel in front of it was read before it, and what is behind its
reply belongs to no call.

* `Ordered`: what the call, the process and the pipe between them keep.
* `Process.step_ordered`: every step of the process keeps it.
-/

namespace StudioWorker.LlamaProcess

open Lib Lib.System

variable {R : Type}

/-! ## The order -/

def Sent.isRequest : Sent R → Bool
  | .request .. => true
  | .cancel _ => false

namespace OutLine

def isReply : OutLine → Bool
  | .reply .. => true
  | _ => false

/-- The call it belongs to. -/
def of : OutLine → Option ℕ
  | .log of _ => of
  | .piece of _ => some of
  | .reply of _ => some of

def piece? : OutLine → Option Text
  | .piece _ text => some text
  | _ => none

theorem piece?_eq_none {l : OutLine} (h : l.of = none) : l.piece? = none := by
  cases l with
  | log => rfl
  | piece => cases h
  | reply => rfl

end OutLine

def Delivered.out? : Delivered → Option OutLine
  | .out line => some line
  | _ => none

/-- The requests past the reader thread. -/
def Process.past (p : Process R) : List (ℕ × R) :=
  p.serving.toList ++ p.requests ++ p.held.toList

/-- The lines of stdout on their way to the daemon. -/
def Process.pipe (p : Process R) (lines : List Delivered) : List OutLine :=
  lines.filterMap Delivered.out? ++ p.stdout

/-- The request of the call in progress is in one place, or its reply is; what comes behind it
belongs to it or to no call. -/
structure Ordered (wire : R → Option R) (call : Option (Call R)) (p : Process R)
    (pipe : List OutLine) : Prop where
  conserved : p.past.length + p.stdin.countP Sent.isRequest + pipe.countP OutLine.isReply =
    if call.isSome then 1 else 0
  unread : ∀ k r, Sent.request k r ∈ p.stdin → ∃ c ∈ call, k = c.number ∧ r = c.request
  past : ∀ x ∈ p.past, ∃ c ∈ call, x.1 = c.number ∧ wire c.request = some x.2 ∧
    (∀ j ∈ p.cancelled, j = c.number) ∧ ∀ j, Sent.cancel j ∈ p.stdin → j = c.number
  behind : ∀ j, Sent.cancel j ∈ after Sent.isRequest p.stdin → ∃ c ∈ call, j = c.number
  tagged : ∀ l ∈ pipe, ∀ k ∈ l.of, ∃ c ∈ call, k = c.number
  sealed : ∀ l ∈ after OutLine.isReply pipe, l.of = none
  forwarded : ∀ c ∈ call, if p.serving.isSome ∨ pipe.any OutLine.isReply then
    c.forwarded ++ pipe.filterMap OutLine.piece? = p.written
    else c.forwarded = [] ∧ pipe.filterMap OutLine.piece? = []

variable {wire : R → Option R} {call : Option (Call R)} {p p' : Process R} {pipe : List OutLine}

theorem Process.mem_past_of_serving {x : ℕ × R} (hx : p.serving = some x) : x ∈ p.past := by
  simp [Process.past, hx]

theorem Ordered.new : Ordered wire none (Process.new : Process R) [] where
  conserved := rfl
  unread _ _ h := by cases h
  past _ h := by cases h
  behind _ h := by cases h
  tagged _ h := by cases h
  sealed _ h := by cases h
  forwarded _ h := by cases h

/-- Each step of the process touches little of what is ordered. -/
theorem Ordered.congr (h : Ordered wire call p pipe) (hpast : p'.past = p.past)
    (hstdin : p'.stdin = p.stdin) (hcancelled : p'.cancelled = p.cancelled)
    (hserving : p'.serving = p.serving) (hwritten : p'.written = p.written) :
    Ordered wire call p' pipe where
  conserved := by rw [hpast, hstdin]; exact h.conserved
  unread := by rw [hstdin]; exact h.unread
  past := by rw [hpast, hstdin, hcancelled]; exact h.past
  behind := by rw [hstdin]; exact h.behind
  tagged := h.tagged
  sealed := h.sealed
  forwarded := by rw [hserving, hwritten]; exact h.forwarded

/-! ### What the process keeps -/

namespace Ordered

variable (h : Ordered wire call p pipe)
include h

/-- A request past the reader is the only one, and no reply is on its way. -/
theorem alone {x : ℕ × R} (hx : x ∈ p.past) :
    p.past.length = 1 ∧ p.stdin.countP Sent.isRequest = 0 ∧ pipe.any OutLine.isReply = false := by
  have hpos := List.length_pos_of_mem hx
  have hc := h.conserved
  have hle : (if call.isSome then 1 else 0) ≤ 1 := by split_ifs <;> omega
  refine ⟨by omega, by omega, ?_⟩
  rw [Bool.eq_false_iff]
  intro hany
  have := List.countP_pos_iff.mpr (List.any_eq_true.mp hany)
  omega

/-- While a request is served, what the process writes belongs to the call. -/
theorem current_of {k : ℕ} (hk : k ∈ p.current) : ∃ c ∈ call, k = c.number := by
  obtain ⟨x, hx, rfl⟩ := Option.map_eq_some_iff.mp hk
  obtain ⟨c, hc, hn, -⟩ := h.past x (p.mem_past_of_serving hx)
  exact ⟨c, hc, hn⟩

/-- Behind a reply nothing is served. -/
theorem current_none (hany : pipe.any OutLine.isReply = true) : p.current = none := by
  unfold Process.current
  cases hs : p.serving with
  | none => rfl
  | some x =>
    have := (h.alone (p.mem_past_of_serving hs)).2.2
    rw [hany] at this
    cases this

/-- What is added to stdout belongs to the request being served. -/
theorem tagged_append {line : OutLine} (hof : line.of = p.current) :
    ∀ l ∈ pipe ++ [line], ∀ k ∈ l.of, ∃ c ∈ call, k = c.number := by
  intro l hl k hk
  rcases List.mem_append.mp hl with hl | hl
  · exact h.tagged l hl k hk
  · rw [List.mem_singleton.mp hl, hof] at hk
    exact h.current_of hk

theorem sealed_append {line : OutLine} (hof : line.of = p.current) :
    ∀ l ∈ after OutLine.isReply (pipe ++ [line]), l.of = none := by
  intro l hl
  rcases mem_after_concat hl with hl | ⟨hany, rfl⟩
  · exact h.sealed l hl
  · rw [hof]
    exact h.current_none hany

/-- A log line is added to stdout. -/
theorem log (message : Text) : Ordered wire call p (pipe ++ [.log p.current message]) where
  conserved := by
    rw [List.countP_append]
    exact h.conserved
  unread := h.unread
  past := h.past
  behind := h.behind
  tagged := h.tagged_append rfl
  sealed := h.sealed_append rfl
  forwarded c hc := by
    have hany : (pipe ++ [OutLine.log p.current message]).any OutLine.isReply =
        pipe.any OutLine.isReply :=
      List.any_append.trans (Bool.or_false _)
    have hpieces : (pipe ++ [OutLine.log p.current message]).filterMap OutLine.piece? =
        pipe.filterMap OutLine.piece? :=
      List.filterMap_append.trans (List.append_nil _)
    rw [hany, hpieces]
    exact h.forwarded c hc

/-- A piece of the answer is added to stdout. -/
theorem piece {x : ℕ × R} (hs : p.serving = some x) (text : Text)
    (hwritten : p'.written = p.written ++ [text]) (hstdin : p'.stdin = p.stdin)
    (hpast : p'.past = p.past) (hserving : p'.serving = p.serving)
    (hcancelled : p'.cancelled = p.cancelled) :
    Ordered wire call p' (pipe ++ [.piece x.1 text]) where
  conserved := by
    rw [hpast, hstdin, List.countP_append]
    exact h.conserved
  unread := by rw [hstdin]; exact h.unread
  past := by rw [hpast, hstdin, hcancelled]; exact h.past
  behind := by rw [hstdin]; exact h.behind
  tagged := h.tagged_append (by simp [OutLine.of, Process.current, hs])
  sealed := h.sealed_append (by simp [OutLine.of, Process.current, hs])
  forwarded c hc := by
    have hf := h.forwarded c hc
    rw [if_pos (.inl (by simp [hs]))] at hf
    rw [if_pos (.inl (by simp [hserving, hs])), hwritten, ← hf, List.append_assoc,
      List.filterMap_append]
    rfl

/-- The request being served is answered. -/
theorem answer {x : ℕ × R} (hs : p.serving = some x) (reply : FromProcess) :
    Ordered wire call { p with serving := none } (pipe ++ [.reply x.1 reply]) := by
  obtain ⟨hlength, hcount, hany⟩ := h.alone (p.mem_past_of_serving hs)
  have hpast : ({ p with serving := none } : Process R).past = [] := by
    apply List.length_eq_zero_iff.mp
    simp only [Process.past, hs, Option.toList_some, Option.toList_none, List.length_append,
      List.length_cons, List.length_nil] at hlength ⊢
    omega
  have hreplies : pipe.countP OutLine.isReply = 0 :=
    List.countP_eq_zero.mpr fun l hl => by simpa using List.any_eq_false.mp hany l hl
  refine ⟨?_, h.unread, ?_, h.behind, h.tagged_append ?_, h.sealed_append ?_, ?_⟩
  · have hc := h.conserved
    rw [hlength] at hc
    rw [hpast, List.countP_append]
    change 0 + p.stdin.countP Sent.isRequest + (pipe.countP OutLine.isReply + 1) = _
    omega
  · rw [hpast]
    intro x hx
    cases hx
  · simp [OutLine.of, Process.current, hs]
  · simp [OutLine.of, Process.current, hs]
  · intro c hc
    have hf := h.forwarded c hc
    rw [if_pos (.inl (by simp [hs]))] at hf
    rw [if_pos (.inr (by simp [OutLine.isReply])), List.filterMap_append]
    exact (congrArg _ (List.append_nil _)).trans hf

/-- The serve loop receives the next request. -/
theorem serve {x : ℕ × R} {rest : List (ℕ × R)} (hs : p.serving = none)
    (hrequests : p.requests = x :: rest) :
    Ordered wire call { p with serving := some x, written := [], requests := rest } pipe := by
  have hpast : ({ p with serving := some x, written := [], requests := rest } : Process R).past =
      p.past := by
    simp [Process.past, hs, hrequests]
  have hany := (h.alone (x := x) (by simp [Process.past, hrequests])).2.2
  refine ⟨by rw [hpast]; exact h.conserved, h.unread, by rw [hpast]; exact h.past, h.behind,
    h.tagged, h.sealed, fun c hc => ?_⟩
  have hf := h.forwarded c hc
  rw [if_neg (by simp [hs, hany])] at hf
  rw [if_pos (.inl rfl), hf.1, hf.2]
  rfl

/-- The reader thread reads a cancel. -/
theorem readCancel {j : ℕ} {rest : List (Sent R)} (hstdin : p.stdin = .cancel j :: rest) :
    Ordered wire call { p with stdin := rest, cancelled := some j } pipe where
  conserved := by
    have hc := h.conserved
    rw [hstdin] at hc
    exact hc
  unread k r hk := h.unread k r (hstdin ▸ List.mem_cons_of_mem _ hk)
  past x hx := by
    obtain ⟨c, hc, hn, hw, -, hj⟩ := h.past x hx
    refine ⟨c, hc, hn, hw, fun i hi => ?_, fun i hi => hj i (hstdin ▸ List.mem_cons_of_mem _ hi)⟩
    obtain rfl := Option.some.inj hi
    exact hj j (hstdin ▸ List.mem_cons_self)
  behind i hi := h.behind i (by rw [hstdin]; exact hi)
  tagged := h.tagged
  sealed := h.sealed
  forwarded := h.forwarded

/-- The reader thread reads a request: whatever was cancelled before it, nothing cancels it but
what comes behind it. -/
theorem readRequest {k : ℕ} {r r' : R} {rest : List (Sent R)}
    (hstdin : p.stdin = .request k r :: rest) (hw : wire r = some r') :
    Ordered wire call { p with stdin := rest, cancelled := none, held := some (k, r') } pipe := by
  obtain ⟨c, hcall, hk, rfl⟩ := h.unread k r (by rw [hstdin]; exact List.mem_cons_self)
  have hc := h.conserved
  rw [hcall, hstdin, List.countP_cons_of_pos rfl] at hc
  simp only [Option.isSome_some, if_true] at hc
  have hpast : p.past = [] := List.length_eq_zero_iff.mp (by omega)
  have hpast' : ({ p with stdin := rest, cancelled := none, held := some (k, r') } :
      Process R).past = [(k, r')] := by
    change p.serving.toList ++ p.requests ++ [(k, r')] = _
    rw [(List.append_eq_nil_iff.mp hpast).1]
    rfl
  have hbehind : ∀ j, Sent.cancel j ∈ rest → j = c.number := by
    intro j hj
    obtain ⟨c', hc', hn⟩ := h.behind j (by rw [hstdin]; exact hj)
    obtain rfl := Option.some.inj (hcall.symm.trans hc')
    exact hn
  refine ⟨?_, ?_, ?_, ?_, h.tagged, h.sealed, h.forwarded⟩
  · rw [hpast', hcall, List.length_singleton, Option.isSome_some, if_pos rfl]
    change 1 + rest.countP Sent.isRequest + _ = 1
    omega
  · intro i r'' hi
    exact h.unread i r'' (hstdin ▸ List.mem_cons_of_mem _ hi)
  · rw [hpast']
    intro x hx
    obtain rfl := List.mem_singleton.mp hx
    exact ⟨c, hcall, hk, hw, fun j hj => (Option.not_mem_none j hj).elim, hbehind⟩
  · intro j hj
    exact ⟨c, hcall, hbehind j (after_subset hj)⟩

end Ordered

/-- A step that hands nothing on and notes nothing. -/
theorem Ordered.silent {lines : List Delivered} (h : Ordered wire call p (p.pipe lines)) :
    Ordered wire call p (p.pipe (lines ++ (none : Option Delivered).toList)) ∧
      ∀ n ∈ (none : Option Note), n.Sound ∧ n.ends = none := by
  refine ⟨?_, fun n hn => (Option.not_mem_none n hn).elim⟩
  rw [Option.toList_none, List.append_nil]
  exact h

/-- Every step of the process keeps the order, and only the call's own cancel stops it. -/
theorem Process.step_ordered {lines : List Delivered} {event : ProcessEvent}
    {line : Option Delivered} {note : Option Note}
    (hdec : ∀ c ∈ call, (wire c.request).isSome) (h : Ordered wire call p (p.pipe lines))
    (hstep : p.step wire event = some (p', line, note)) :
    Ordered wire call p' (p'.pipe (lines ++ line.toList)) ∧
      ∀ n ∈ note, n.Sound ∧ n.ends = none := by
  cases event with
  | read =>
    simp only [Process.step, Option.ite_none_right_eq_some, Option.map_eq_some_iff] at hstep
    obtain ⟨-, q, hread, heq⟩ := hstep
    simp only [Prod.mk.injEq] at heq
    obtain ⟨rfl, rfl, rfl⟩ := heq
    refine Ordered.silent ?_
    unfold Process.read at hread
    split at hread
    · rename_i of rest hheld hstdin
      obtain rfl := Option.some.inj hread
      exact h.readCancel hstdin
    · rename_i of request rest hheld hstdin
      split at hread
      · rename_i request' hw
        obtain rfl := Option.some.inj hread
        exact h.readRequest hstdin hw
      · rename_i hw
        obtain ⟨c, hc, -, rfl⟩ := h.unread of request (hstdin ▸ List.mem_cons_self)
        have := hdec c hc
        rw [hw] at this
        cases this
    · cases hread
  | pass =>
    simp only [Process.step] at hstep
    split at hstep
    · rename_i request _ hheld
      simp only [Option.some.injEq, Prod.mk.injEq] at hstep
      obtain ⟨rfl, rfl, rfl⟩ := hstep
      refine Ordered.silent ?_
      exact h.congr (by simp [Process.past, hheld]) rfl rfl rfl rfl
    · cases hstep
  | serve =>
    simp only [Process.step] at hstep
    split at hstep
    · rename_i request rest _ hserving hrequests
      simp only [Option.some.injEq, Prod.mk.injEq] at hstep
      obtain ⟨rfl, rfl, rfl⟩ := hstep
      refine Ordered.silent ?_
      exact h.serve hserving hrequests
    · cases hstep
  | check =>
    simp only [Process.step] at hstep
    split at hstep
    · rename_i request _ hserving
      simp only [Option.some.injEq, Prod.mk.injEq] at hstep
      obtain ⟨rfl, rfl, rfl⟩ := hstep
      simp only [Option.toList_none, List.append_nil]
      refine ⟨h, fun n hn => ?_⟩
      obtain ⟨j, hj, rfl⟩ := Option.map_eq_some_iff.mp hn
      obtain ⟨c, -, hx, -, hcancelled, -⟩ := h.past request (p.mem_past_of_serving hserving)
      exact ⟨(hcancelled j hj).trans hx.symm, rfl⟩
    · cases hstep
  | log message =>
    simp only [Process.step, Option.ite_none_right_eq_some, Option.some.injEq,
      Prod.mk.injEq] at hstep
    obtain ⟨-, rfl, rfl, rfl⟩ := hstep
    refine Ordered.silent ?_
    rw [Process.pipe, ← List.append_assoc]
    exact (h.log message).congr rfl rfl rfl rfl rfl
  | piece text =>
    simp only [Process.step] at hstep
    split at hstep
    · rename_i request _ hserving
      simp only [Option.some.injEq, Prod.mk.injEq] at hstep
      obtain ⟨rfl, rfl, rfl⟩ := hstep
      refine Ordered.silent ?_
      rw [Process.pipe, ← List.append_assoc]
      exact h.piece hserving text rfl rfl rfl rfl rfl
    · cases hstep
  | answer reply =>
    simp only [Process.step] at hstep
    split at hstep
    · rename_i request _ hserving _
      simp only [Option.some.injEq, Prod.mk.injEq] at hstep
      obtain ⟨rfl, rfl, rfl⟩ := hstep
      refine Ordered.silent ?_
      rw [Process.pipe, ← List.append_assoc]
      exact (h.answer hserving reply).congr rfl rfl rfl rfl rfl
    · cases hstep
  | print text =>
    simp only [Process.step, Option.ite_none_right_eq_some, Option.some.injEq,
      Prod.mk.injEq] at hstep
    obtain ⟨-, rfl, rfl, rfl⟩ := hstep
    refine Ordered.silent ?_
    exact h.congr rfl rfl rfl rfl rfl
  | forwardOut =>
    simp only [Process.step] at hstep
    split at hstep
    · rename_i out rest hstdout
      simp only [Option.some.injEq, Prod.mk.injEq] at hstep
      obtain ⟨rfl, rfl, rfl⟩ := hstep
      refine ⟨?_, fun n hn => (Option.not_mem_none n hn).elim⟩
      have hpipe : p.pipe lines =
          (lines ++ [Delivered.out out]).filterMap Delivered.out? ++ rest := by
        rw [Process.pipe, hstdout, List.filterMap_append, List.append_assoc]
        rfl
      rw [hpipe] at h
      exact h.congr rfl rfl rfl rfl rfl
    · cases hstep
  | forwardErr =>
    simp only [Process.step] at hstep
    split at hstep
    · rename_i text rest hstderr
      simp only [Option.some.injEq, Prod.mk.injEq] at hstep
      obtain ⟨rfl, rfl, rfl⟩ := hstep
      refine ⟨?_, fun n hn => (Option.not_mem_none n hn).elim⟩
      rw [Process.pipe, List.filterMap_append]
      simp only [Option.toList_some, List.filterMap_cons, List.filterMap_nil, Delivered.out?,
        List.append_nil]
      exact h.congr rfl rfl rfl rfl rfl
    · cases hstep
  | dies =>
    simp only [Process.step, Option.ite_none_right_eq_some, Option.some.injEq,
      Prod.mk.injEq] at hstep
    obtain ⟨-, rfl, rfl, rfl⟩ := hstep
    refine Ordered.silent ?_
    exact h.congr rfl rfl rfl rfl rfl
  | closeOut =>
    simp only [Process.step, Option.ite_none_right_eq_some, Option.some.injEq,
      Prod.mk.injEq] at hstep
    obtain ⟨-, rfl, rfl, rfl⟩ := hstep
    refine ⟨?_, fun n hn => (Option.not_mem_none n hn).elim⟩
    rw [Process.pipe, List.filterMap_append]
    simp only [Option.toList_some, List.filterMap_cons, List.filterMap_nil, Delivered.out?,
      List.append_nil]
    exact h.congr rfl rfl rfl rfl rfl

/-! ### What the daemon keeps -/

namespace Ordered

variable {c : Call R}

/-- Without a call nothing is asked, and nothing on its way belongs to one. -/
theorem idle (h : Ordered wire none p pipe) :
    p.past = [] ∧ p.stdin.countP Sent.isRequest = 0 ∧ pipe.countP OutLine.isReply = 0 ∧
      ∀ l ∈ pipe, l.of = none := by
  have hc := h.conserved
  rw [Option.isSome_none, if_neg Bool.false_ne_true] at hc
  refine ⟨List.length_eq_zero_iff.mp (by omega), by omega, by omega, fun l hl => ?_⟩
  cases hof : l.of with
  | none => rfl
  | some k =>
    obtain ⟨c, hc, -⟩ := h.tagged l hl k hof
    cases hc

/-- A call writes its request. -/
theorem asked (h : Ordered wire none p pipe) (n : ℕ) (request : R) :
    Ordered wire (some ⟨n, request, []⟩)
      { p with stdin := p.stdin ++ [.request n request] } pipe := by
  obtain ⟨hpast, hcount, hreplies, hnone⟩ := h.idle
  have hpast' : ({ p with stdin := p.stdin ++ [.request n request] } : Process R).past = [] := hpast
  have hserving : p.serving = none := by
    rw [Process.past, List.append_eq_nil_iff, List.append_eq_nil_iff] at hpast
    exact Option.toList_eq_nil_iff.mp hpast.1.1
  have hany : p.stdin.any Sent.isRequest = false := by
    rw [List.any_eq_false]
    exact List.countP_eq_zero.mp hcount
  refine ⟨?_, ?_, ?_, ?_, ?_, h.sealed, ?_⟩
  · rw [hpast', hreplies, List.countP_append, hcount]
    rfl
  · intro k r hk
    rcases List.mem_append.mp hk with hk | hk
    · obtain ⟨c, hc, -⟩ := h.unread k r hk
      cases hc
    · obtain ⟨rfl, rfl⟩ := Sent.request.inj (List.mem_singleton.mp hk)
      exact ⟨_, rfl, rfl, rfl⟩
  · rw [hpast']
    intro x hx
    cases hx
  · intro j hj
    rw [after_append_of_not_any hany] at hj
    cases hj
  · intro l hl k hk
    rw [hnone l hl] at hk
    cases hk
  · intro c hc
    obtain rfl := Option.some.inj hc
    have hreply : pipe.any OutLine.isReply = false := by
      rw [List.any_eq_false]
      exact List.countP_eq_zero.mp hreplies
    rw [if_neg (by simp [hserving, hreply])]
    exact ⟨rfl, List.filterMap_eq_nil_iff.mpr fun l hl => OutLine.piece?_eq_none (hnone l hl)⟩

/-- The call writes a cancel. -/
theorem cancel (h : Ordered wire (some c) p pipe) :
    Ordered wire (some c) { p with stdin := p.stdin ++ [.cancel c.number] } pipe where
  conserved := by
    have hc := h.conserved
    change p.past.length + (p.stdin ++ [Sent.cancel c.number]).countP Sent.isRequest + _ = _
    rw [List.countP_append]
    exact hc
  unread k r hk := by
    rcases List.mem_append.mp hk with hk | hk
    · exact h.unread k r hk
    · cases List.mem_singleton.mp hk
  past x hx := by
    obtain ⟨c', hc', hn, hw, hcancelled, hj⟩ := h.past x hx
    obtain rfl := Option.some.inj hc'
    refine ⟨_, rfl, hn, hw, hcancelled, fun j hmem => ?_⟩
    rcases List.mem_append.mp hmem with hmem | hmem
    · exact hj j hmem
    · exact Sent.cancel.inj (List.mem_singleton.mp hmem)
  behind j hj := by
    rcases mem_after_concat hj with hj | ⟨-, hj⟩
    · exact h.behind j hj
    · exact ⟨c, rfl, Sent.cancel.inj hj⟩
  tagged := h.tagged
  sealed := h.sealed
  forwarded := h.forwarded

/-- The call takes a log line. -/
theorem takeLog {of : Option ℕ} {message : Text}
    (h : Ordered wire call p (.log of message :: pipe)) : Ordered wire call p pipe where
  conserved := h.conserved
  unread := h.unread
  past := h.past
  behind := h.behind
  tagged l hl := h.tagged l (List.mem_cons_of_mem _ hl)
  sealed := h.sealed
  forwarded := h.forwarded

/-- The call takes a piece: it is the call's own. -/
theorem takePiece {k : ℕ} {text : Text} (h : Ordered wire (some c) p (.piece k text :: pipe)) :
    k = c.number ∧
      Ordered wire (some { c with forwarded := c.forwarded ++ [text] }) p pipe := by
  refine ⟨?_, h.conserved, ?_, ?_, ?_, ?_, h.sealed, ?_⟩
  · obtain ⟨c', hc', hk⟩ := h.tagged _ List.mem_cons_self k rfl
    obtain rfl := Option.some.inj hc'
    exact hk
  · intro k r hk
    obtain ⟨c', hc', hn⟩ := h.unread k r hk
    obtain rfl := Option.some.inj hc'
    exact ⟨_, rfl, hn⟩
  · intro x hx
    obtain ⟨c', hc', hn⟩ := h.past x hx
    obtain rfl := Option.some.inj hc'
    exact ⟨_, rfl, hn⟩
  · intro j hj
    obtain ⟨c', hc', hn⟩ := h.behind j hj
    obtain rfl := Option.some.inj hc'
    exact ⟨_, rfl, hn⟩
  · intro l hl k hk
    obtain ⟨c', hc', hn⟩ := h.tagged l (List.mem_cons_of_mem _ hl) k hk
    obtain rfl := Option.some.inj hc'
    exact ⟨_, rfl, hn⟩
  · intro c' hc'
    obtain rfl := Option.some.inj hc'
    have hf := h.forwarded c rfl
    change if p.serving.isSome ∨ pipe.any OutLine.isReply then
      c.forwarded ++ (text :: pipe.filterMap OutLine.piece?) = p.written
      else c.forwarded = [] ∧ text :: pipe.filterMap OutLine.piece? = [] at hf
    split_ifs at hf ⊢
    · rw [List.append_assoc]
      exact hf
    · cases hf.2

/-- The call takes its reply: every piece of the answer was forwarded before. -/
theorem takeReply {k : ℕ} {reply : FromProcess}
    (h : Ordered wire (some c) p (.reply k reply :: pipe)) :
    k = c.number ∧ c.forwarded = p.written ∧ Ordered wire none p pipe := by
  have hc := h.conserved
  rw [List.countP_cons_of_pos rfl, Option.isSome_some, if_pos rfl] at hc
  have hpast : p.past = [] := List.length_eq_zero_iff.mp (by omega)
  have hany : ∀ s ∈ p.stdin, ¬ s.isRequest := List.countP_eq_zero.mp (by omega)
  have hnone : ∀ l ∈ pipe, l.of = none := h.sealed
  refine ⟨?_, ?_, ?_, ?_, ?_, ?_, ?_, ?_, ?_⟩
  · obtain ⟨c', hc', hk⟩ := h.tagged _ List.mem_cons_self k rfl
    obtain rfl := Option.some.inj hc'
    exact hk
  · have hf := h.forwarded c rfl
    have hpieces : (OutLine.reply k reply :: pipe).filterMap OutLine.piece? = [] := by
      refine List.filterMap_eq_nil_iff.mpr fun l hl => ?_
      rcases List.mem_cons.mp hl with rfl | hl
      · rfl
      · exact OutLine.piece?_eq_none (hnone l hl)
    rw [if_pos (.inr (by simp [OutLine.isReply])), hpieces, List.append_nil] at hf
    exact hf
  · rw [Option.isSome_none, if_neg Bool.false_ne_true]
    omega
  · intro k r hk
    exact (hany _ hk rfl).elim
  · rw [hpast]
    intro x hx
    cases hx
  · intro j hj
    rw [after_eq_nil hany] at hj
    cases hj
  · intro l hl k hk
    rw [hnone l hl] at hk
    cases hk
  · intro l hl
    exact hnone l (after_subset hl)
  · intro c' hc'
    cases hc'

/-- What was forwarded is where the answer begins. -/
theorem forwarded_prefix (h : Ordered wire (some c) p pipe) : c.forwarded <+: p.written := by
  have hf := h.forwarded c rfl
  split_ifs at hf
  · exact ⟨_, hf⟩
  · rw [hf.1]
    exact List.nil_prefix

end Ordered

end StudioWorker.LlamaProcess
