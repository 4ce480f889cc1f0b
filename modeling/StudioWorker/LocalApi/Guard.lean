import StudioWorker.Text

/-!
# LocalApi.Guard — who may call the local API

`deny_reason` of `local_api.rs` and the header checks under it.  They cut a host at its last colon
or at its closing bracket and look at one side only.

* `LoopbackHost`: the hosts meant, `<loopback>[:port]`.
* `LaxHost`: the further hosts that get through, by what is wrong with them.
* `denyReason_iff`: the requests on which the gate is the one it is meant to be.
-/

namespace StudioWorker.LocalApi

open Text Lib.Search

/-! ## The gate -/

/-- Why a request was denied before reaching its handler. -/
inductive Denial where
  | host (host : Text)
  | origin (origin : Text)
  | token
deriving DecidableEq

def localhost : Text := ['l', 'o', 'c', 'a', 'l', 'h', 'o', 's', 't']
def ipv4Loopback : Text := ['1', '2', '7', '.', '0', '.', '0', '.', '1']
def ipv6Loopback : Text := [':', ':', '1']
def httpScheme : Text := ['h', 't', 't', 'p', ':', '/', '/']
def httpsScheme : Text := ['h', 't', 't', 'p', 's', ':', '/', '/']
def bearer : Text := ['B', 'e', 'a', 'r', 'e', 'r', ' ']
def bearerLower : Text := ['b', 'e', 'a', 'r', 'e', 'r', ' ']

def bareIsLoopback (bare : Text) : Bool :=
  eqIgnoreAsciiCase bare localhost || bare == ipv4Loopback || bare == ipv6Loopback

def hostIsLoopback (host : Text) : Bool :=
  match Text.stripPrefix ['['] host with
  | some rest =>
    match splitOnce [']'] rest with
    | some (addr, _) => bareIsLoopback addr
    | none => false
  | none => bareIsLoopback (((rsplitOnce [':'] host).map (·.1)).getD host)

def originIsLoopback (origin : Text) : Bool :=
  match (Text.stripPrefix httpsScheme origin).or (Text.stripPrefix httpScheme origin) with
  | some host => hostIsLoopback host
  | none => false

def tokenMatches (presented expected : Text) : Bool :=
  let a := bytes presented
  let b := bytes expected
  if a.length ≠ b.length then false
  else (a.zip b).foldl (fun acc xy => acc ||| (xy.1 ^^^ xy.2)) 0 == 0

/-- The checks in order: Host, Origin, then the token. -/
def denyReason (host origin authorization : Option Text) (token : Text) : Option Denial :=
  match host.filter fun h => !hostIsLoopback h with
  | some h => some (.host h)
  | none =>
    match origin.filter fun o => !originIsLoopback o with
    | some o => some (.origin o)
    | none =>
      let presented := authorization.bind fun a =>
        (Text.stripPrefix bearer a).or (Text.stripPrefix bearerLower a)
      if presented.any fun p => tokenMatches p token then none else some .token

/-! ## What it is meant to admit -/

/-- `localhost` in any case, or `127.0.0.1`. -/
def LocalName (name : Text) : Prop :=
  eqIgnoreAsciiCase name localhost = true ∨ name = ipv4Loopback

def IsPort (p : Text) : Prop := p ≠ [] ∧ ∀ c ∈ p, c.isDigit = true

/-- Nothing, or a colon and a decimal port. -/
inductive PortSuffix : Text → Prop
  | absent : PortSuffix []
  | port {p : Text} (h : IsPort p) : PortSuffix (':' :: p)

/-- `<loopback>[:port]` -/
inductive LoopbackHost : Text → Prop
  | name {name suffix : Text} (h : LocalName name) (hs : PortSuffix suffix) :
    LoopbackHost (name ++ suffix)
  | ipv6 {suffix : Text} (hs : PortSuffix suffix) :
    LoopbackHost ('[' :: ipv6Loopback ++ ']' :: suffix)

inductive LoopbackOrigin : Text → Prop
  | http {host : Text} (h : LoopbackHost host) : LoopbackOrigin (httpScheme ++ host)
  | https {host : Text} (h : LoopbackHost host) : LoopbackOrigin (httpsScheme ++ host)

/-- `Bearer` or `bearer`, a blank and the token. -/
def BearerOf (token : Text) (authorization : Option Text) : Prop :=
  authorization = some (bearer ++ token) ∨ authorization = some (bearerLower ++ token)

structure Admissible (host origin authorization : Option Text) (token : Text) : Prop where
  host : ∀ h ∈ host, LoopbackHost h
  origin : ∀ o ∈ origin, LoopbackOrigin o
  token : BearerOf token authorization

/-! ## What gets through beside it -/

/-- A name in brackets, anything but a port behind `[::1]` or behind the colon of a name, or `::1`
without its brackets and one colon more. -/
inductive LaxHost : Text → Prop
  | bracketed {name junk : Text} (h : LocalName name) : LaxHost ('[' :: name ++ ']' :: junk)
  | junk {junk : Text} (h : ¬ PortSuffix junk) : LaxHost ('[' :: ipv6Loopback ++ ']' :: junk)
  | port {name p : Text} (h : LocalName name) (hc : ':' ∉ p) (hp : ¬ IsPort p) :
    LaxHost (name ++ ':' :: p)
  | bare {p : Text} (hc : ':' ∉ p) : LaxHost (ipv6Loopback ++ ':' :: p)

inductive LaxOrigin : Text → Prop
  | http {host : Text} (h : LaxHost host) : LaxOrigin (httpScheme ++ host)
  | https {host : Text} (h : LaxHost host) : LaxOrigin (httpsScheme ++ host)

/-- No header is lax, or another one is refused by itself. -/
def Guarded (host origin authorization : Option Text) (token : Text) : Prop :=
  ((∃ h ∈ host, LaxHost h) ∨ ∃ o ∈ origin, LaxOrigin o) →
    (∃ h ∈ host, ¬ LoopbackHost h ∧ ¬ LaxHost h) ∨
      (∃ o ∈ origin, ¬ LoopbackOrigin o ∧ ¬ LaxOrigin o) ∨ ¬ BearerOf token authorization

/-! ## Names and ports -/

theorem bareIsLoopback_iff {bare : Text} :
    bareIsLoopback bare = true ↔ LocalName bare ∨ bare = ipv6Loopback := by
  simp only [bareIsLoopback, LocalName, Bool.or_eq_true, beq_iff_eq]

theorem LocalName.not_mem {name : Text} (h : LocalName name) {c : Char}
    (hc : c.toLower ∉ localhost.map Char.toLower) (hc' : c ∉ ipv4Loopback) : c ∉ name := by
  rcases h with h | rfl
  · exact not_mem_of_eqIgnoreAsciiCase h hc
  · exact hc'

theorem LocalName.ne_nil {name : Text} (h : LocalName name) : name ≠ [] := by
  rcases h with h | rfl
  · rintro rfl
    exact absurd h (by decide)
  · decide

theorem LocalName.colon {name : Text} (h : LocalName name) : ':' ∉ name :=
  h.not_mem (by decide) (by decide)

theorem LocalName.opens {name : Text} (h : LocalName name) : '[' ∉ name :=
  h.not_mem (by decide) (by decide)

theorem LocalName.closes {name : Text} (h : LocalName name) : ']' ∉ name :=
  h.not_mem (by decide) (by decide)

theorem LocalName.ne_ipv6 {name : Text} (h : LocalName name) : name ≠ ipv6Loopback := by
  rintro rfl
  exact h.colon (by decide)

/-- No text that goes on after a local name starts with a bracket. -/
theorem LocalName.stripPrefix_append {name : Text} (h : LocalName name) (t : Text) :
    Text.stripPrefix ['['] (name ++ t) = none := by
  rw [stripPrefix_none]
  intro hp
  cases name with
  | nil => exact h.ne_nil rfl
  | cons c name =>
    obtain ⟨rfl, -⟩ := List.cons_prefix_cons.mp hp
    exact h.opens List.mem_cons_self

theorem IsPort.colon {p : Text} (h : IsPort p) : ':' ∉ p := fun hmem =>
  absurd (h.2 _ hmem) (by decide)

/-! ## Hosts as they are cut -/

theorem hostIsLoopback_bracket {addr junk : Text} (h : ']' ∉ addr) :
    hostIsLoopback ('[' :: addr ++ ']' :: junk) = bareIsLoopback addr := by
  have hstrip : Text.stripPrefix ['['] ('[' :: addr ++ ']' :: junk) = some (addr ++ ']' :: junk) :=
    stripPrefix_some.mpr rfl
  have hsplit : splitOnce [']'] (addr ++ ']' :: junk) = some (addr, junk) :=
    splitOnce_singleton_some.mpr ⟨rfl, h⟩
  simp only [hostIsLoopback, hstrip, hsplit]

theorem hostIsLoopback_colon {a p : Text} (h : Text.stripPrefix ['['] (a ++ ':' :: p) = none)
    (hc : ':' ∉ p) : hostIsLoopback (a ++ ':' :: p) = bareIsLoopback a := by
  have hsplit : rsplitOnce [':'] (a ++ ':' :: p) = some (a, p) :=
    rsplitOnce_char_some.mpr ⟨rfl, hc⟩
  simp only [hostIsLoopback, h, hsplit, Option.map_some, Option.getD_some]

theorem hostIsLoopback_plain {host : Text} (h : Text.stripPrefix ['['] host = none)
    (hc : ':' ∉ host) : hostIsLoopback host = bareIsLoopback host := by
  have hsplit : rsplitOnce [':'] host = none := rsplitOnce_char_none.mpr hc
  simp only [hostIsLoopback, h, hsplit, Option.map_none, Option.getD_none]

/-- A loopback host is let through. -/
theorem LoopbackHost.passes {host : Text} (h : LoopbackHost host) : hostIsLoopback host = true := by
  cases h with
  | @name name suffix hn hs =>
    have hstrip := hn.stripPrefix_append suffix
    have hbare : bareIsLoopback name = true := bareIsLoopback_iff.mpr (.inl hn)
    cases hs with
    | absent =>
      rw [List.append_nil] at hstrip ⊢
      rw [hostIsLoopback_plain hstrip hn.colon, hbare]
    | port hp => rw [hostIsLoopback_colon hstrip hp.colon, hbare]
  | ipv6 hs =>
    rw [hostIsLoopback_bracket (by decide)]
    exact bareIsLoopback_iff.mpr (.inr rfl)

theorem LaxHost.passes {host : Text} (h : LaxHost host) : hostIsLoopback host = true := by
  cases h with
  | bracketed hn =>
    rw [hostIsLoopback_bracket hn.closes]
    exact bareIsLoopback_iff.mpr (.inl hn)
  | junk h =>
    rw [hostIsLoopback_bracket (by decide)]
    exact bareIsLoopback_iff.mpr (.inr rfl)
  | port hn hc hp =>
    rw [hostIsLoopback_colon (hn.stripPrefix_append _) hc]
    exact bareIsLoopback_iff.mpr (.inl hn)
  | bare hc =>
    rw [hostIsLoopback_colon (stripPrefix_none.mpr fun hp => ?_) hc]
    · exact bareIsLoopback_iff.mpr (.inr rfl)
    · obtain ⟨hhead, -⟩ := List.cons_prefix_cons.mp hp
      exact absurd hhead (by decide)

/-- **The host check** lets the loopback hosts through, and the lax ones. -/
theorem hostIsLoopback_iff {host : Text} :
    hostIsLoopback host = true ↔ LoopbackHost host ∨ LaxHost host := by
  constructor
  · intro h
    cases hstrip : Text.stripPrefix ['['] host with
    | some rest =>
      obtain rfl := stripPrefix_some.mp hstrip
      cases hsplit : splitOnce [']'] rest with
      | none =>
        simp only [hostIsLoopback, hstrip, hsplit] at h
        exact absurd h Bool.false_ne_true
      | some ab =>
        obtain ⟨addr, junk⟩ := ab
        obtain ⟨rfl, hc⟩ := splitOnce_singleton_some.mp hsplit
        have hbare : bareIsLoopback addr = true := (hostIsLoopback_bracket hc).symm.trans h
        rcases bareIsLoopback_iff.mp hbare with hn | rfl
        · exact .inr (.bracketed hn)
        · by_cases hp : PortSuffix junk
          · exact .inl (.ipv6 hp)
          · exact .inr (.junk hp)
    | none =>
      cases hsplit : rsplitOnce [':'] host with
      | none =>
        have hc : ':' ∉ host := rsplitOnce_char_none.mp hsplit
        rw [hostIsLoopback_plain hstrip hc] at h
        rcases bareIsLoopback_iff.mp h with hn | rfl
        · have hhost := LoopbackHost.name hn .absent
          rw [List.append_nil] at hhost
          exact .inl hhost
        · exact absurd List.mem_cons_self hc
      | some ab =>
        obtain ⟨a, p⟩ := ab
        obtain ⟨rfl, hc⟩ := rsplitOnce_char_some.mp hsplit
        rw [hostIsLoopback_colon hstrip hc] at h
        rcases bareIsLoopback_iff.mp h with hn | rfl
        · by_cases hp : IsPort p
          · exact .inl (.name hn (.port hp))
          · exact .inr (.port hn hc hp)
        · exact .inr (.bare hc)
  · rintro (h | h)
    · exact h.passes
    · exact h.passes

/-! ## The two kinds are apart -/

/-- A loopback host in brackets is `[::1]`, and a port if anything follows. -/
theorem LoopbackHost.of_bracket {addr junk : Text} (h : LoopbackHost ('[' :: addr ++ ']' :: junk))
    (hc : ']' ∉ addr) : addr = ipv6Loopback ∧ PortSuffix junk := by
  generalize hhost : '[' :: addr ++ ']' :: junk = host at h
  cases h with
  | name hn hs =>
    have hnone := hn.stripPrefix_append ‹Text›
    rw [← hhost, stripPrefix_none] at hnone
    exact absurd (List.cons_prefix_cons.mpr ⟨rfl, List.nil_prefix⟩) hnone
  | ipv6 hs =>
    obtain ⟨-, hrest⟩ := List.cons_eq_cons.mp hhost
    obtain ⟨haddr, hjunk⟩ := append_cons_inj hc (by decide) hrest
    exact ⟨haddr, hjunk ▸ hs⟩

/-- Behind the last colon of a loopback host without brackets is a port. -/
theorem LoopbackHost.of_colon {a p : Text} (h : LoopbackHost (a ++ ':' :: p))
    (ha : ¬ ['['] <+: a ++ ':' :: p) (hc : ':' ∉ p) : LocalName a ∧ IsPort p := by
  generalize hhost : a ++ ':' :: p = host at h
  cases h with
  | name hn hs =>
    cases hs with
    | absent =>
      rw [List.append_nil] at hhost
      have hmem : ':' ∈ a ++ ':' :: p := List.mem_append_right _ List.mem_cons_self
      rw [hhost] at hmem
      exact absurd hmem hn.colon
    | port hp =>
      have hlast : rsplitOnce [':'] (a ++ ':' :: p) = some (a, p) :=
        rsplitOnce_char_some.mpr ⟨rfl, hc⟩
      rw [hhost, rsplitOnce_char_some.mpr ⟨rfl, hp.colon⟩] at hlast
      obtain ⟨rfl, rfl⟩ := Prod.mk.inj (Option.some.inj hlast)
      exact ⟨hn, hp⟩
  | ipv6 hs =>
    rw [hhost] at ha
    exact absurd (List.cons_prefix_cons.mpr ⟨rfl, List.nil_prefix⟩) ha

theorem LaxHost.not_loopback {host : Text} (h : LaxHost host) : ¬ LoopbackHost host := by
  intro hl
  cases h with
  | bracketed hn => exact hn.ne_ipv6 (hl.of_bracket hn.closes).1
  | junk hp => exact hp (hl.of_bracket (by decide)).2
  | port hn hc hp =>
    exact hp (hl.of_colon (stripPrefix_none.mp (hn.stripPrefix_append _)) hc).2
  | @bare p hc =>
    have hhead : ¬ ['['] <+: ipv6Loopback ++ ':' :: p := fun hp =>
      absurd (List.cons_prefix_cons.mp hp).1 (by decide)
    exact (hl.of_colon hhead hc).1.ne_ipv6 rfl

/-! ## Origins and tokens -/

/-- The two schemes have no text in common. -/
theorem http_ne_https (s t : Text) : httpScheme ++ s ≠ httpsScheme ++ t := by
  intro h
  have htake := congrArg (List.take 5) h
  rw [List.take_append_of_le_length (by decide), List.take_append_of_le_length (by decide)] at htake
  exact absurd htake (by decide)

/-- The origins of hosts with a property, when the origin is cut as the code cuts it. -/
theorem originIsLoopback_eq (origin : Text) : originIsLoopback origin = true ↔
    ∃ host, (origin = httpScheme ++ host ∨ origin = httpsScheme ++ host) ∧ hostIsLoopback host = true := by
  rw [originIsLoopback]
  cases hs : Text.stripPrefix httpsScheme origin with
  | some host =>
    obtain rfl := stripPrefix_some.mp hs
    refine ⟨fun h => ⟨host, .inr rfl, h⟩, ?_⟩
    rintro ⟨host', heq | heq, h⟩
    · exact absurd heq.symm (http_ne_https _ _)
    · rw [List.append_cancel_left heq]
      exact h
  | none =>
    have hns : ∀ host, origin ≠ httpsScheme ++ host := by
      rintro host rfl
      rw [stripPrefix_some.mpr rfl] at hs
      cases hs
    cases hp : Text.stripPrefix httpScheme origin with
    | some host =>
      obtain rfl := stripPrefix_some.mp hp
      refine ⟨fun h => ⟨host, .inl rfl, h⟩, ?_⟩
      rintro ⟨host', heq | heq, h⟩
      · rw [List.append_cancel_left heq]
        exact h
      · exact absurd heq (hns _)
    | none =>
      refine ⟨fun h => absurd h Bool.false_ne_true, ?_⟩
      rintro ⟨host', heq | heq, h⟩
      · rw [heq, stripPrefix_some.mpr rfl] at hp
        cases hp
      · exact absurd heq (hns _)

theorem originIsLoopback_iff {origin : Text} :
    originIsLoopback origin = true ↔ LoopbackOrigin origin ∨ LaxOrigin origin := by
  rw [originIsLoopback_eq]
  constructor
  · rintro ⟨host, rfl | rfl, h⟩
    · exact (hostIsLoopback_iff.mp h).imp .http .http
    · exact (hostIsLoopback_iff.mp h).imp .https .https
  · rintro ((h | h) | (h | h))
    · exact ⟨_, .inl rfl, h.passes⟩
    · exact ⟨_, .inr rfl, h.passes⟩
    · exact ⟨_, .inl rfl, h.passes⟩
    · exact ⟨_, .inr rfl, h.passes⟩

theorem LaxOrigin.not_loopback {origin : Text} (h : LaxOrigin origin) :
    ¬ LoopbackOrigin origin := by
  intro hl
  cases h with
  | http h =>
    generalize heq : httpScheme ++ _ = origin at hl
    cases hl with
    | http hl => exact h.not_loopback (List.append_cancel_left heq ▸ hl)
    | https hl => exact http_ne_https _ _ heq
  | https h =>
    generalize heq : httpsScheme ++ _ = origin at hl
    cases hl with
    | http hl => exact http_ne_https _ _ heq.symm
    | https hl => exact h.not_loopback (List.append_cancel_left heq ▸ hl)

/-- The fold keeps what it starts from and adds the pairs that differ. -/
theorem foldl_xor_eq_zero (zs : List (UInt8 × UInt8)) (acc : UInt8) :
    zs.foldl (fun acc xy => acc ||| (xy.1 ^^^ xy.2)) acc = 0 ↔
      acc = 0 ∧ ∀ xy ∈ zs, xy.1 = xy.2 := by
  induction zs generalizing acc with
  | nil => simp
  | cons xy zs ih =>
    rw [List.foldl_cons, ih, UInt8.or_eq_zero_iff, UInt8.xor_eq_zero_iff, List.forall_mem_cons,
      and_assoc]

/-- **The token check** is equality. -/
theorem tokenMatches_iff {presented expected : Text} :
    tokenMatches presented expected = true ↔ presented = expected := by
  simp only [tokenMatches]
  constructor
  · intro h
    split_ifs at h with hlen
    have hzip := ((foldl_xor_eq_zero _ _).mp (beq_iff_eq.mp h)).2
    refine bytes_injective (List.ext_getElem (not_not.mp hlen) fun i h₁ h₂ => ?_)
    have hmem : (bytes presented)[i] = (bytes expected)[i] :=
      hzip ((bytes presented)[i], (bytes expected)[i])
        (List.mem_iff_getElem.mpr ⟨i, by rw [List.length_zip]; omega, List.getElem_zip⟩)
    exact hmem
  · rintro rfl
    rw [if_neg (not_not.mpr rfl), beq_iff_eq, foldl_xor_eq_zero]
    refine ⟨rfl, fun xy hxy => ?_⟩
    obtain ⟨i, hi, rfl⟩ := List.mem_iff_getElem.mp hxy
    rw [List.getElem_zip]

/-! ## The gate as a whole -/

theorem stripBearer_some {authorization token : Text} :
    ((Text.stripPrefix bearer authorization).or (Text.stripPrefix bearerLower authorization)).any
        (fun p => tokenMatches p token) = true ↔
      authorization = bearer ++ token ∨ authorization = bearerLower ++ token := by
  constructor
  · intro h
    cases hs : Text.stripPrefix bearer authorization with
    | some p =>
      rw [hs, Option.some_or, Option.any_some, tokenMatches_iff] at h
      exact .inl (h ▸ stripPrefix_some.mp hs)
    | none =>
      cases hl : Text.stripPrefix bearerLower authorization with
      | none =>
        rw [hs, hl] at h
        exact absurd h Bool.false_ne_true
      | some p =>
        rw [hs, hl, Option.none_or, Option.any_some, tokenMatches_iff] at h
        exact .inr (h ▸ stripPrefix_some.mp hl)
  · rintro (rfl | rfl)
    · rw [stripPrefix_some.mpr rfl, Option.some_or, Option.any_some, tokenMatches_iff]
    · have hnone : Text.stripPrefix bearer (bearerLower ++ token) = none :=
        stripPrefix_none.mpr fun hp => absurd (List.cons_prefix_cons.mp hp).1 (by decide)
      rw [hnone, stripPrefix_some.mpr rfl, Option.none_or, Option.any_some, tokenMatches_iff]

/-- What the gate computes, header by header. -/
theorem denyReason_none {host origin authorization : Option Text} {token : Text} :
    denyReason host origin authorization token = none ↔
      (∀ h ∈ host, hostIsLoopback h = true) ∧ (∀ o ∈ origin, originIsLoopback o = true) ∧
        BearerOf token authorization := by
  have hfilter : ∀ (x : Option Text) (p : Text → Bool),
      x.filter (fun h => !p h) = none ↔ ∀ h ∈ x, p h = true := by
    intro x p
    rw [Option.filter_eq_none_iff]
    simp
  have htoken : (authorization.bind fun a =>
        (Text.stripPrefix bearer a).or (Text.stripPrefix bearerLower a)).any
        (fun p => tokenMatches p token) = true ↔ BearerOf token authorization := by
    cases authorization with
    | none => simp [BearerOf]
    | some a =>
      rw [Option.bind_some, stripBearer_some]
      simp [BearerOf]
  rw [← hfilter, ← hfilter, ← htoken, denyReason]
  cases host.filter fun h => !hostIsLoopback h with
  | some h => simp
  | none =>
    cases origin.filter fun o => !originIsLoopback o with
    | some o => simp
    | none => simp

/-- What is meant to be admitted is. -/
theorem Admissible.admitted {host origin authorization : Option Text} {token : Text}
    (h : Admissible host origin authorization token) :
    denyReason host origin authorization token = none :=
  denyReason_none.mpr ⟨fun x hx => (h.host x hx).passes,
    fun x hx => originIsLoopback_iff.mpr (.inl (h.origin x hx)), h.token⟩

/-- **The gate** admits the requests it is meant to, and no other, exactly where no header of a
request that goes through is lax. -/
theorem denyReason_iff (host origin authorization : Option Text) (token : Text) :
    (denyReason host origin authorization token = none ↔
        Admissible host origin authorization token) ↔
      Guarded host origin authorization token := by
  constructor
  · intro heq hlax
    by_contra hpass
    push Not at hpass
    obtain ⟨hhost, horigin, htoken⟩ := hpass
    have hnone : denyReason host origin authorization token = none := by
      refine denyReason_none.mpr ⟨fun h hh => ?_, fun o ho => ?_, htoken⟩
      · exact hostIsLoopback_iff.mpr (Classical.or_iff_not_imp_left.mpr (hhost h hh))
      · exact originIsLoopback_iff.mpr (Classical.or_iff_not_imp_left.mpr (horigin o ho))
    have hadm := heq.mp hnone
    rcases hlax with ⟨h, hh, hl⟩ | ⟨o, ho, hl⟩
    · exact hl.not_loopback (hadm.host h hh)
    · exact hl.not_loopback (hadm.origin o ho)
  · intro hguard
    refine ⟨fun hnone => ?_, fun hadm => hadm.admitted⟩
    obtain ⟨hhost, horigin, htoken⟩ := denyReason_none.mp hnone
    have hstrict : ¬ ((∃ h ∈ host, LaxHost h) ∨ ∃ o ∈ origin, LaxOrigin o) := by
      intro hlax
      rcases hguard hlax with ⟨h, hh, h1, h2⟩ | ⟨o, ho, h1, h2⟩ | hno
      · exact (hostIsLoopback_iff.mp (hhost h hh)).elim h1 h2
      · exact (originIsLoopback_iff.mp (horigin o ho)).elim h1 h2
      · exact hno htoken
    refine ⟨fun h hh => ?_, fun o ho => ?_, htoken⟩
    · exact (hostIsLoopback_iff.mp (hhost h hh)).resolve_right fun hl => hstrict (.inl ⟨h, hh, hl⟩)
    · exact (originIsLoopback_iff.mp (horigin o ho)).resolve_right
        fun hl => hstrict (.inr ⟨o, ho, hl⟩)

/-- A name where the port should be. -/
def evilPort : Text := localhost ++ ':' :: ['e', 'v', 'i', 'l']

theorem evil_port_admitted :
    ¬ ∀ (host origin authorization : Option Text) (token : Text),
      denyReason host origin authorization token = none ↔
        Admissible host origin authorization token := by
  intro h
  have hnone : denyReason (some evilPort) none (some (bearer ++ ['t'])) ['t'] = none := by decide
  have hhost := ((h _ _ _ _).mp hnone).host evilPort rfl
  have hport := hhost.of_colon (by decide) (by decide)
  exact absurd (hport.2.2 'e' (by decide)) (by decide)

end StudioWorker.LocalApi
