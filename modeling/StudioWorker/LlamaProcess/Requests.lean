import StudioWorker.CatalogReload
import StudioWorker.LlamaProcess.Calls
import StudioWorker.LlamaProcess.Protocol

/-!
# LlamaProcess.Requests — whether every request is answered

The process passes over a line it cannot read, and the daemon's wait has no limit of its own: a
request that does not return from its line is lost, and the call waits until it is cancelled or the
process ends.

* `Answered`: the calls before end once each, the request of the one in progress is in one place.
* `requests_answered`: which requests return, and what their runs keep.
-/

namespace StudioWorker.LlamaProcess

open Lib Lib.System Lib.Json

section

variable {R : Type} {wire : R → Option R} {d d' : Daemon R} {e : DaemonEvent R}

/-- Every call ends once and in its turn, and while one waits its own request, as it was asked,
is on stdin, past the reader thread or answered on stdout, and in one of these places only. -/
structure Answered (d : Daemon R) : Prop where
  ended : d.notes.filterMap Note.ends ++ (d.call.map (·.number)).toList = List.range d.next
  waiting : ∀ c ∈ d.call, ∃ p ∈ d.process,
    p.past.length + p.stdin.countP Sent.isRequest + (p.pipe d.lines).countP OutLine.isReply = 1 ∧
    (∀ x ∈ p.past, x = (c.number, c.request)) ∧
    (∀ k r, Sent.request k r ∈ p.stdin → k = c.number ∧ r = c.request) ∧
    ∀ l ∈ p.pipe d.lines, ∀ k ∈ l.of, k = c.number

/-- The request of the call in progress was asked by an event. -/
theorem Daemon.step_asked {P : R → Prop} (h : ∀ c ∈ d.call, P c.request)
    (he : ∀ r, e = .call r → P r) (hstep : Daemon.step wire d e = some d') :
    ∀ c ∈ d'.call, P c.request := by
  cases e with
  | restart | unload =>
    simp only [Daemon.step] at hstep
    split at hstep
    · obtain rfl := Option.some.inj hstep
      exact h
    · cases hstep
  | call request =>
    simp only [Daemon.step] at hstep
    split at hstep
    · obtain rfl := Option.some.inj hstep
      intro c hc
      obtain rfl := Option.some.inj hc
      exact he request rfl
    · cases hstep
  | cancel =>
    simp only [Daemon.step] at hstep
    split at hstep
    · obtain rfl := Option.some.inj hstep
      exact h
    · cases hstep
  | take =>
    simp only [Daemon.step] at hstep
    split at hstep
    · rename_i c p line rest hc hp hlines
      obtain rfl := Option.some.inj hstep
      cases line with
      | out line =>
        cases line with
        | log => exact h
        | piece =>
          intro c' hc'
          obtain rfl := Option.some.inj hc'
          exact h c hc
        | reply =>
          intro c' hc'
          cases hc'
      | err => exact h
      | closed => exact h
    · cases hstep
  | fail =>
    simp only [Daemon.step] at hstep
    split at hstep
    · obtain rfl := Option.some.inj hstep
      intro c hc
      cases hc
    · cases hstep
  | process event =>
    simp only [Daemon.step, Option.bind_eq_some_iff, Option.map_eq_some_iff] at hstep
    obtain ⟨p, -, ⟨p', line, note⟩, -, rfl⟩ := hstep
    exact h

/-- Where each request is read as it was asked, none is lost. -/
theorem Inv.answered (h : Inv wire d) (hasked : ∀ c ∈ d.call, wire c.request = some c.request) :
    Answered d where
  ended := h.numbered
  waiting c hc := by
    obtain ⟨p, hp⟩ := Option.isSome_iff_exists.mp (h.live (by rw [hc]; rfl))
    have ho := h.ordered p hp
    rw [hc] at ho
    refine ⟨p, hp, ho.conserved, fun x hx => ?_, fun k r hk => ?_, fun l hl k hk => ?_⟩
    · obtain ⟨c', hc', hn, hw, -⟩ := ho.past x hx
      obtain rfl := Option.some.inj hc'
      rw [hasked c hc] at hw
      exact Prod.ext hn (Option.some.inj hw).symm
    · obtain ⟨c', hc', hkr⟩ := ho.unread k r hk
      obtain rfl := Option.some.inj hc'
      exact hkr
    · obtain ⟨c', hc', hn⟩ := ho.tagged l hl k hk
      obtain rfl := Option.some.inj hc'
      exact hn

end

/-! ## The requests that return -/

/-- What the process reads of a request. -/
def ToProcess.wire {F : Type} [Zero F] (s : LlmSerde F) (r : ToProcess F) : Option (ToProcess F) :=
  decode s (encode s r)

/-- A request the worker makes is read as it was asked exactly when its floats and free-form parts
return, and in every run of such requests each is answered once or its process ends. -/
theorem requests_answered {F : Type} [Zero F] (s : LlmSerde F)
    {es : List (DaemonEvent (ToProcess F))} {d : Daemon (ToProcess F)}
    (hasked : ∀ r, .call r ∈ es → r.Produced s ∧ r.Returns s)
    (hr : run (Daemon.step (ToProcess.wire s)) Daemon.new es = some d) :
    (∀ r : ToProcess F, r.Produced s → (r.wire s = some r ↔ r.Returns s)) ∧ Answered d := by
  have hwire : ∀ r : ToProcess F, r.Produced s → (r.wire s = some r ↔ r.Returns s) :=
    fun r hr => ToProcess.decode_encode hr.fits
  have hcall : ∀ r, DaemonEvent.call r ∈ es → r.wire s = some r :=
    fun r hmem => (hwire r (hasked r hmem).1).mpr (hasked r hmem).2
  refine ⟨hwire, (Daemon.run_inv (fun e he => ?_) hr).answered ?_⟩
  · cases e with
    | call r =>
      change (r.wire s).isSome
      rw [hcall r he]
      rfl
    | restart | cancel | take | fail | unload | process => trivial
  · have hok : Along (Daemon.step (ToProcess.wire s))
        (fun _ e => ∀ r, e = DaemonEvent.call r → r.wire s = some r) Daemon.new es := by
      refine along_of_forall fun e he r her => hcall r ?_
      rw [← her]
      exact he
    refine along_invariant (I := fun d => ∀ c ∈ d.call, c.request.wire s = some c.request)
      (fun _ _ _ h he hs => Daemon.step_asked h he hs) es _ _ (fun c hc => ?_) hok hr
    cases hc

/-! ## The ends of the float range -/

/-- The JSON library on `f32`s, where nothing is free-form. -/
def llmF32 : LlmSerde F32 where
  toSerde := CatalogServer.jsonF32
  readValue := some
  writeValue := id
  defaultTemperature := .finite (7 / 10)

/-- A body that gives a temperature and no message. -/
def temperatureBody (v : Json) : Json := .object [("messages", .array []), ("temperature", v)]

/-- What it asks for. -/
def temperatureParams (x : F32) : LlmParams F32 where
  messages := []
  system := none
  maxTokens := 512
  temperature := x
  topP := none
  stop := none
  jsonSchema := none
  reasoning := none
  chatTemplateKwargs := none
  images := []

theorem temperatureBody_produced {v : Json} {x : F32} (h : llmF32.deserializeFloat v = some x) :
    (ToProcess.chat (temperatureParams x)).Produced llmF32 := by
  refine .inr ⟨temperatureBody v,
    ⟨none, [], none, some x, none, none, none, false, none, [], none⟩, ?_, rfl⟩
  have htemperature : nullable (some v) llmF32.deserializeFloat = some (some x) := by
    cases v with
    | number n => exact congrArg (Option.map some) h
    | null | bool | string | array | object => cases h
  obtain ⟨f, hf, hget⟩ := @fields_record ChatBody.fieldNames
    [("model", none), ("messages", some (.array [])), ("max_tokens", none),
      ("temperature", some v), ("top_p", none), ("stop", none), ("chat_template_kwargs", none),
      ("stream", none), ("deadline_ms", none), ("images", none), ("response_format", none)]
    rfl (by decide)
  simp only [List.forall_mem_cons] at hget
  refine ChatBody.deserialize_eq_some.mpr ⟨f, hf, ?_⟩
  simp [hget, htemperature, Json.all]

/-- A chat of a temperature in range, and the tokens of a text while no other call waits. -/
def warmRun : List (DaemonEvent (ToProcess F32)) :=
  [.restart, .call (.chat (temperatureParams (.finite (1 / 2)))), .process .read, .process .pass,
    .process .serve, .process (.answer (.done .null)), .process .forwardOut, .take,
    .call (.tokenize "hi" true), .process .read]

theorem warm_requests_answered : ∃ d,
    run (Daemon.step (ToProcess.wire llmF32)) Daemon.new warmRun = some d ∧
      (d.notes.length = 1 ∧ d.next = 2) ∧
      (∀ r : ToProcess F32, r.Produced llmF32 → (r.wire llmF32 = some r ↔ r.Returns llmF32)) ∧
        Answered d := by
  have hread : llmF32.deserializeFloat (.number (.dec (1 / 2))) = some (.finite (1 / 2)) := by
    decide +kernel
  have hasked : ∀ r, .call r ∈ warmRun → r.Produced llmF32 ∧ r.Returns llmF32 := by
    intro r hr
    simp only [warmRun, List.mem_cons, DaemonEvent.call.injEq, reduceCtorEq, false_or, or_false,
      List.not_mem_nil] at hr
    rcases hr with rfl | rfl
    · refine ⟨temperatureBody_produced hread, ?_, ?_, ?_, ?_⟩
      · exact CatalogServer.exact_of_inRange (by decide +kernel)
      · intro x hx
        cases hx
      · intro v hv
        cases hv
      · intro t ht
        cases ht
    · exact ⟨trivial, trivial⟩
  exact exists_run (P := fun d => d.notes.length = 1 ∧ d.next = 2) (by decide +kernel)
    fun _ hr hp => ⟨hp, requests_answered llmF32 hasked hr⟩

/-- A temperature out of range is read as infinite, written as `null` and not read back: the
request is passed over, and its call waits for a reply that nobody will write. -/
theorem hot_chat_ignored : ∃ r : ToProcess F32, r.Produced llmF32 ∧ r.wire llmF32 = none ∧
    ∃ d, run (Daemon.step (ToProcess.wire llmF32)) Daemon.new
        [.restart, .call r, .process .read] = some d ∧ ¬ Answered d := by
  have hread : llmF32.deserializeFloat (.number (.dec (10 ^ 39))) = some (.infinite false) := by
    decide +kernel
  refine ⟨.chat (temperatureParams (.infinite false)), temperatureBody_produced hread, rfl, _, rfl,
    fun h => ?_⟩
  obtain ⟨p, hp, hone, -⟩ := h.waiting _ rfl
  obtain rfl := Option.some.inj hp
  cases hone

end StudioWorker.LlamaProcess
