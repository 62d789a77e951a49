import EllaFi.Session
import Mathlib.Data.List.Nodup

/-!
The Omada controller as the firmware sees it: the calls that grant, extend and
end a client's session, what they report, and what the controller does with a
request that reaches it. The controller keeps one session for each MAC and gives
each new session an identifier that it never uses again (`Controller`). A request
may be lost, and so may a reply to a request that was carried out (`Link`); a
call that reports an error over a link that loses no reply has changed nothing
(`calling_refused`).
-/
namespace EllaFi.Omada
open EllaFi.Session

/-! ## The controller -/

/-- A session in the controller's list of hotspot clients. -/
structure HotspotClient where
  mac : String
  id : String
  startMillis : Nat
  endMillis : Nat
  authType : Int
  /-- Absent where the list has null. -/
  ip : Option String
deriving DecidableEq, Repr

def omadaAuthTypeExternalPortal : Int := 4

/-- A change of a session that leaves it to the same client under the same
    identifier. -/
structure SessionWrite where
  apply : HotspotClient → HotspotClient
  keepsMac : ∀ row, (apply row).mac = row.mac
  keepsId : ∀ row, (apply row).id = row.id

attribute [simp] SessionWrite.keepsMac SessionWrite.keepsId

def renewed (clock durationMillis : Nat) (ip : String) : SessionWrite where
  apply row := { row with startMillis := clock, endMillis := clock + durationMillis, ip := some ip }
  keepsMac _ := rfl
  keepsId _ := rfl

def prolonged (period : Nat) : SessionWrite where
  apply row := { row with endMillis := row.endMillis + period }
  keepsMac _ := rfl
  keepsId _ := rfl

def ended (clock : Nat) : SessionWrite where
  apply row := { row with endMillis := clock }
  keepsMac _ := rfl
  keepsId _ := rfl

/-- The controller's supply of session identifiers, and the addresses it makes up
    for a client that names none. -/
structure Issuer where
  clientId : Nat → String
  distinct : Function.Injective clientId
  nonempty : ∀ n, clientId n ≠ ""
  assignIp : String → String

/-- Identifiers by length, one address for all. -/
def plainIssuer : Issuer where
  clientId n := String.ofList (List.replicate (n + 1) 'c')
  distinct n m same := by
    have lengths := congrArg String.length same
    simp only [String.length_ofList, List.length_replicate] at lengths
    omega
  nonempty n empty := by
    have lengths := congrArg String.length empty
    simp at lengths
  assignIp _ := "192.168.0.100"

structure Controller (issuer : Issuer) where
  hotspotSessions : List HotspotClient
  issued : Nat
  byMac : (hotspotSessions.map (·.mac)).Nodup
  byId : (hotspotSessions.map (·.id)).Nodup
  known : ∀ row ∈ hotspotSessions, ∃ n < issued, row.id = issuer.clientId n

namespace Controller
variable {issuer : Issuer}

def empty : Controller issuer where
  hotspotSessions := []
  issued := 0
  byMac := .nil
  byId := .nil
  known := nofun

section
variable (controller : Controller issuer)

def session (mac : String) : Option HotspotClient :=
  controller.hotspotSessions.find? fun row => row.mac = mac

/-- The end of a client's session; 0 where it has none. -/
def sessionEnd (mac : String) : Nat := ((controller.session mac).map (·.endMillis)).getD 0

def sessionById (id : String) : Option HotspotClient :=
  controller.hotspotSessions.find? fun row => row.id = id

/-- The sessions that `select` holds of are changed in place. -/
def revise (select : HotspotClient → Bool) (change : SessionWrite) : Controller issuer where
  hotspotSessions := controller.hotspotSessions.map fun row => if select row then change.apply row else row
  issued := controller.issued
  byMac := by
    have same : ((·.mac) ∘ fun row : HotspotClient => if select row then change.apply row else row) = (·.mac) := by
      funext row
      simp only [Function.comp_apply]
      split <;> simp
    rw [List.map_map, same]
    exact controller.byMac
  byId := by
    have same : ((·.id) ∘ fun row : HotspotClient => if select row then change.apply row else row) = (·.id) := by
      funext row
      simp only [Function.comp_apply]
      split <;> simp
    rw [List.map_map, same]
    exact controller.byId
  known := by
    intro row inside
    obtain ⟨before, there, rfl⟩ := List.mem_map.mp inside
    obtain ⟨n, below, own⟩ := controller.known before there
    exact ⟨n, below, by split <;> simp [own]⟩

/-- A session for a client that has none, under a new identifier. -/
def add (mac : String) (free : controller.session mac = none) (startMillis endMillis : Nat) (ip : String) :
    Controller issuer where
  hotspotSessions := controller.hotspotSessions ++
    [{ mac, id := issuer.clientId controller.issued, startMillis, endMillis,
       authType := omadaAuthTypeExternalPortal, ip := some ip }]
  issued := controller.issued + 1
  byMac := by
    rw [List.map_append, List.nodup_append]
    refine ⟨controller.byMac, List.nodup_singleton _, ?_⟩
    intro other inside new fresh same
    obtain ⟨row, there, rfl⟩ := List.mem_map.mp inside
    rw [List.map_cons, List.map_nil, List.mem_singleton] at fresh
    simpa [same, fresh] using List.find?_eq_none.mp free row there
  byId := by
    rw [List.map_append, List.nodup_append]
    refine ⟨controller.byId, List.nodup_singleton _, ?_⟩
    intro other inside new fresh same
    obtain ⟨row, there, rfl⟩ := List.mem_map.mp inside
    obtain ⟨n, below, own⟩ := controller.known row there
    rw [List.map_cons, List.map_nil, List.mem_singleton] at fresh
    have equal := issuer.distinct (own.symm.trans (same.trans fresh))
    omega
  known := by
    intro row inside
    rcases List.mem_append.mp inside with there | new
    · obtain ⟨n, below, own⟩ := controller.known row there
      exact ⟨n, by omega, own⟩
    · rw [List.mem_singleton] at new
      exact ⟨controller.issued, by omega, by rw [new]⟩

def remove (mac : String) : Controller issuer where
  hotspotSessions := controller.hotspotSessions.filter fun row => row.mac ≠ mac
  issued := controller.issued
  byMac := controller.byMac.sublist (List.filter_sublist.map _)
  byId := controller.byId.sublist (List.filter_sublist.map _)
  known row inside := controller.known row (List.mem_of_mem_filter inside)

end

section
variable {controller : Controller issuer} {row : HotspotClient} {mac id : String}

theorem session_some : controller.session mac = some row ↔ row ∈ controller.hotspotSessions ∧ row.mac = mac := by
  constructor
  · intro found
    exact ⟨List.mem_of_find?_eq_some found, by simpa using List.find?_some found⟩
  · rintro ⟨inside, own⟩
    cases found : controller.session mac with
    | none => exact absurd own (by simpa using List.find?_eq_none.mp found row inside)
    | some other =>
      have there := List.mem_of_find?_eq_some found
      have same : other.mac = row.mac := by rw [own]; simpa using List.find?_some found
      rw [List.inj_on_of_nodup_map controller.byMac there inside same]

theorem sessionById_some : controller.sessionById id = some row ↔ row ∈ controller.hotspotSessions ∧ row.id = id := by
  constructor
  · intro found
    exact ⟨List.mem_of_find?_eq_some found, by simpa using List.find?_some found⟩
  · rintro ⟨inside, own⟩
    cases found : controller.sessionById id with
    | none => exact absurd own (by simpa using List.find?_eq_none.mp found row inside)
    | some other =>
      have there := List.mem_of_find?_eq_some found
      have same : other.id = row.id := by rw [own]; simpa using List.find?_some found
      rw [List.inj_on_of_nodup_map controller.byId there inside same]

theorem session_revise (controller : Controller issuer) (select : HotspotClient → Bool) (change : SessionWrite)
    (mac : String) :
    (controller.revise select change).session mac =
      (controller.session mac).map fun row => if select row then change.apply row else row := by
  unfold session revise
  rw [List.find?_map]
  have same : ((fun row : HotspotClient => decide (row.mac = mac)) ∘
      fun row => if select row then change.apply row else row) = fun row => decide (row.mac = mac) := by
    funext row
    simp only [Function.comp_apply]
    split <;> simp
  rw [same]

theorem session_add (controller : Controller issuer) (free : controller.session mac = none)
    (startMillis endMillis : Nat) (ip other : String) :
    (controller.add mac free startMillis endMillis ip).session other =
      if other = mac then
        some { mac, id := issuer.clientId controller.issued, startMillis, endMillis,
               authType := omadaAuthTypeExternalPortal, ip := some ip }
      else controller.session other := by
  unfold session add
  rw [List.find?_append]
  by_cases here : other = mac
  · subst here
    have none_ := free
    unfold session at none_
    simp [none_]
  · simp [here, Ne.symm here]

theorem session_remove (controller : Controller issuer) (mac other : String) :
    (controller.remove mac).session other = if other = mac then none else controller.session other := by
  unfold session remove
  rw [List.find?_filter]
  by_cases here : other = mac
  · subst here
    simp
  · rw [if_neg here]
    congr 1
    funext row
    by_cases own : row.mac = other
    · simp [own, here]
    · simp [own]

theorem sessionEnd_of_mem (inside : row ∈ controller.hotspotSessions) :
    controller.sessionEnd row.mac = row.endMillis := by
  simp [sessionEnd, session_some.mpr ⟨inside, rfl⟩]

end

/-- A later state of the controller: a session that was not there before has an
    identifier that was not used before. -/
structure Continues (before after : Controller issuer) : Prop where
  issued : before.issued ≤ after.issued
  inherited : ∀ row ∈ after.hotspotSessions,
    (∃ old ∈ before.hotspotSessions, old.mac = row.mac ∧ old.id = row.id) ∨
      ∃ n, before.issued ≤ n ∧ row.id = issuer.clientId n

theorem Continues.refl (controller : Controller issuer) : Continues controller controller where
  issued := Nat.le_refl _
  inherited row inside := .inl ⟨row, inside, rfl, rfl⟩

theorem Continues.trans {before middle after : Controller issuer} (first : Continues before middle)
    (second : Continues middle after) : Continues before after where
  issued := Nat.le_trans first.issued second.issued
  inherited row inside := by
    rcases second.inherited row inside with ⟨old, there, sameMac, sameId⟩ | ⟨n, fresh, own⟩
    · rcases first.inherited old there with ⟨older, back, mac, id⟩ | ⟨n, fresh, own⟩
      · exact .inl ⟨older, back, mac.trans sameMac, id.trans sameId⟩
      · exact .inr ⟨n, fresh, sameId.symm.trans own⟩
    · exact .inr ⟨n, Nat.le_trans first.issued fresh, own⟩

theorem continues_revise (controller : Controller issuer) (select : HotspotClient → Bool) (change : SessionWrite) :
    Continues controller (controller.revise select change) where
  issued := Nat.le_refl _
  inherited row inside := by
    obtain ⟨old, there, rfl⟩ := List.mem_map.mp inside
    exact .inl ⟨old, there, by split <;> simp, by split <;> simp⟩

theorem continues_add (controller : Controller issuer) {mac : String} (free : controller.session mac = none)
    (startMillis endMillis : Nat) (ip : String) :
    Continues controller (controller.add mac free startMillis endMillis ip) where
  issued := Nat.le_succ _
  inherited row inside := by
    rcases List.mem_append.mp inside with there | new
    · exact .inl ⟨row, there, rfl, rfl⟩
    · rw [List.mem_singleton] at new
      exact .inr ⟨controller.issued, Nat.le_refl _, by rw [new]⟩

theorem continues_remove (controller : Controller issuer) (mac : String) :
    Continues controller (controller.remove mac) where
  issued := Nat.le_refl _
  inherited row inside := .inl ⟨row, List.mem_of_mem_filter inside, rfl, rfl⟩

end Controller

/-! ## Requests and replies -/

/-- The fields of an authentication request. -/
structure AuthRequest where
  clientMac : String
  clientIp : String
  site : String
  time : Nat
  authType : Int
  apMac : String
  ssidName : String
  radioId : String
deriving DecidableEq, Repr

inductive Request where
  | auth (fields : AuthRequest)
  | extend (clientId : String) (period : Nat)
  | disconnect (clientId : String)
deriving DecidableEq, Repr

structure Reply where
  errorCode : Int
  msg : Option String
deriving DecidableEq, Repr

section
variable {issuer : Issuer} (clock : Nat) (controller : Controller issuer)

/-- The address that the controller records for a client. -/
def recordedIp (issuer : Issuer) (fields : AuthRequest) : String :=
  if fields.clientIp = "" then issuer.assignIp fields.clientMac else fields.clientIp

/-- A running session is renewed. A client that has none gets a new one, whatever was
    left of its last; a session for no time at all ends the one there is. -/
def handleAuth (fields : AuthRequest) : Controller issuer :=
  if fields.time = 0 then controller.remove fields.clientMac
  else if clock < controller.sessionEnd fields.clientMac then
    controller.revise (fun row => row.mac = fields.clientMac)
      (renewed clock fields.time (recordedIp issuer fields))
  else
    (controller.remove fields.clientMac).add fields.clientMac (by simp [Controller.session_remove]) clock
      (clock + fields.time) (recordedIp issuer fields)

def clientNotFound : Reply := { errorCode := -1, msg := some "Client not found" }

def handleExtend (clientId : String) (period : Nat) : Reply × Controller issuer :=
  match controller.sessionById clientId with
  | none => (clientNotFound, controller)
  | some _ =>
    ({ errorCode := 0, msg := some "Extend success." },
      controller.revise (fun row => row.id = clientId) (prolonged period))

def handleDisconnect (clientId : String) : Reply × Controller issuer :=
  match controller.sessionById clientId with
  | none => (clientNotFound, controller)
  | some _ =>
    ({ errorCode := 0, msg := some "Disconnect success." },
      controller.revise (fun row => row.id = clientId) (ended clock))

def handle : Request → Reply × Controller issuer
  | .auth fields => ({ errorCode := 0, msg := some "Auth success." }, handleAuth clock controller fields)
  | .extend clientId period => handleExtend controller clientId period
  | .disconnect clientId => handleDisconnect clock controller clientId

end

section
variable {issuer : Issuer} {clock : Nat} {controller : Controller issuer}

theorem handle_continues (request : Request) : Controller.Continues controller (handle clock controller request).2 := by
  cases request with
  | auth fields =>
    simp only [handle, handleAuth]
    split
    · exact Controller.continues_remove controller _
    · split
      · exact Controller.continues_revise controller ..
      · exact (Controller.continues_remove controller _).trans (Controller.continues_add _ ..)
  | extend clientId period =>
    simp only [handle, handleExtend]
    split
    · exact .refl controller
    · exact Controller.continues_revise controller ..
  | disconnect clientId =>
    simp only [handle, handleDisconnect]
    split
    · exact .refl controller
    · exact Controller.continues_revise controller ..

/-- A refused request changes nothing. -/
theorem handle_refused {request : Request} (refused : (handle clock controller request).1.errorCode ≠ 0) :
    (handle clock controller request).2 = controller := by
  cases request with
  | auth fields => exact absurd rfl refused
  | extend clientId period =>
    simp only [handle, handleExtend] at refused ⊢
    split at refused
    · rfl
    · exact absurd rfl refused
  | disconnect clientId =>
    simp only [handle, handleDisconnect] at refused ⊢
    split at refused
    · rfl
    · exact absurd rfl refused

theorem auth_sessionEnd (fields : AuthRequest) (mac : String) :
    (handleAuth clock controller fields).sessionEnd mac =
      if mac = fields.clientMac then (if fields.time = 0 then 0 else clock + fields.time)
      else controller.sessionEnd mac := by
  unfold handleAuth Controller.sessionEnd
  split
  · rw [Controller.session_remove]
    split <;> simp
  · next timed =>
    split
    · next running =>
      rw [Controller.session_revise]
      by_cases here : mac = fields.clientMac
      · subst here
        cases there : controller.session fields.clientMac with
        | none => simp [there] at running
        | some row => simp [(Controller.session_some.mp there).2, renewed]
      · cases other : controller.session mac with
        | none => simp [here]
        | some row => simp [here, (Controller.session_some.mp other).2]
    · rw [Controller.session_add, Controller.session_remove]
      by_cases here : mac = fields.clientMac <;> simp [here]

/-- A change of the session with an identifier moves the end of that session's
    client and of no other. -/
theorem revise_sessionEnd {id : String} {row : HotspotClient} (found : controller.sessionById id = some row)
    (change : SessionWrite) (mac : String) :
    (controller.revise (fun row => row.id = id) change).sessionEnd mac =
      if mac = row.mac then (change.apply row).endMillis else controller.sessionEnd mac := by
  obtain ⟨inside, own⟩ := Controller.sessionById_some.mp found
  unfold Controller.sessionEnd
  rw [Controller.session_revise]
  by_cases here : mac = row.mac
  · subst here
    simp [Controller.session_some.mpr ⟨inside, rfl⟩, own]
  · cases there : controller.session mac with
    | none => simp [here]
    | some other =>
      obtain ⟨otherInside, otherMac⟩ := Controller.session_some.mp there
      have differs : other.id ≠ id := by
        intro same
        have equal := List.inj_on_of_nodup_map controller.byId otherInside inside (same.trans own.symm)
        exact here (by rw [← otherMac, equal])
      simp [here, differs]

/-- The client whose session a request is about. -/
def Concerns (controller : Controller issuer) : Request → String → Prop
  | .auth fields, mac => fields.clientMac = mac
  | .extend clientId _, mac | .disconnect clientId, mac =>
    ∃ row, controller.sessionById clientId = some row ∧ row.mac = mac

theorem revise_session {id : String} {row : HotspotClient} (found : controller.sessionById id = some row)
    (change : SessionWrite) {mac : String} (other : row.mac ≠ mac) :
    (controller.revise (fun row => row.id = id) change).session mac = controller.session mac := by
  obtain ⟨inside, own⟩ := Controller.sessionById_some.mp found
  rw [Controller.session_revise]
  cases there : controller.session mac with
  | none => rfl
  | some this =>
    obtain ⟨thisInside, thisMac⟩ := Controller.session_some.mp there
    have differs : this.id ≠ id := by
      intro same
      have equal := List.inj_on_of_nodup_map controller.byId thisInside inside (same.trans own.symm)
      exact other (by rw [← thisMac, equal])
    simp [differs]

/-- A request leaves the sessions of the clients that it is not about. -/
theorem handle_session {request : Request} {mac : String} (other : ¬ Concerns controller request mac) :
    (handle clock controller request).2.session mac = controller.session mac := by
  cases request with
  | auth fields =>
    have differs : mac ≠ fields.clientMac := Ne.symm other
    simp only [handle, handleAuth]
    split
    · rw [Controller.session_remove, if_neg differs]
    · split
      · rw [Controller.session_revise]
        cases there : controller.session mac with
        | none => rfl
        | some row => simp [(Controller.session_some.mp there).2, differs]
      · rw [Controller.session_add, if_neg differs, Controller.session_remove, if_neg differs]
  | extend clientId period =>
    simp only [handle, handleExtend]
    split
    · rfl
    · next row found => exact revise_session found _ fun same => other ⟨row, found, same⟩
  | disconnect clientId =>
    simp only [handle, handleDisconnect]
    split
    · rfl
    · next row found => exact revise_session found _ fun same => other ⟨row, found, same⟩

/-- A client that is running keeps its identifier; another gets a new one. -/
theorem auth_session {fields : AuthRequest} (timed : fields.time ≠ 0) :
    ∃ row, (handleAuth clock controller fields).session fields.clientMac = some row ∧
      row.endMillis = clock + fields.time ∧
      ((∃ before, controller.session fields.clientMac = some before ∧ clock < before.endMillis ∧ row.id = before.id) ∨
        (controller.sessionEnd fields.clientMac ≤ clock ∧ row.id = issuer.clientId controller.issued)) := by
  unfold handleAuth
  rw [if_neg timed]
  split
  · next running =>
    cases there : controller.session fields.clientMac with
    | none => simp [Controller.sessionEnd, there] at running
    | some before =>
      have own := (Controller.session_some.mp there).2
      refine ⟨_, by rw [Controller.session_revise, there, Option.map_some, if_pos (by simp [own])], rfl, .inl ?_⟩
      exact ⟨before, rfl, by simpa [Controller.sessionEnd, there] using running, rfl⟩
  · next finished =>
    exact ⟨_, by rw [Controller.session_add, if_pos rfl], rfl, .inr ⟨Nat.not_lt.mp finished, rfl⟩⟩

end

/-! ## The calls -/

/-- What an HTTP call reports when no answer of the controller arrives. -/
inductive Failure where
  | transport (error : String)
  | unparsed
deriving DecidableEq, Repr

/-- The way to the controller during one call. -/
inductive Link where
  | loginFailed (detail : String)
  | unreachable (failure : Failure)
  | replyLost (failure : Failure)
  | up
deriving DecidableEq, Repr

/-- A request that the controller carries out is answered. -/
def Link.Acknowledged (link : Link) : Prop := ∀ failure, link ≠ .replyLost failure

def failureDetail (call : String) : Failure → String
  | .transport error => call ++ ": " ++ error
  | .unparsed => call ++ ": JSON parse error"

def readReply (call : String) (reply : Reply) : Except String Unit :=
  if reply.errorCode = 0 then .ok ()
  else .error (call ++ ": " ++ reply.msg.getD ("errorCode " ++ toString reply.errorCode))

section
variable {issuer : Issuer} (link : Link) (clock : Nat) (controller : Controller issuer)

/-- One call: what it reports, and the controller after it. -/
def omadaCall (call : String) (request : Request) : Except String Unit × Controller issuer :=
  match link with
  | .loginFailed detail => (.error detail, controller)
  | .unreachable failure => (.error (failureDetail call failure), controller)
  | .replyLost failure => (.error (failureDetail call failure), (handle clock controller request).2)
  | .up => (readReply call (handle clock controller request).1, (handle clock controller request).2)

/-- A call that assigns `accepted` to the session when it succeeds. -/
def calling (call : String) (request : Request) (accepted : FieldWrite) :
    Except String FieldWrite × Controller issuer :=
  let (reported, after) := omadaCall link clock controller call request
  (reported.map fun _ => accepted, after)

def authRequest (config : Config) (session : SessionParams) (durationMillis : Nat) : AuthRequest where
  clientMac := session.clientMac
  clientIp := session.clientIp
  site := config.siteName
  time := durationMillis
  authType := omadaAuthTypeExternalPortal
  apMac := session.apMac
  ssidName := session.ssidName
  radioId := session.radioId

def authenticateOmadaClient (config : Config) (session : SessionParams) (durationMillis : Nat) :
    Except String FieldWrite × Controller issuer :=
  calling link clock controller "Auth" (.auth (authRequest config session durationMillis))
    (authenticated (nowEpochMillis clock) durationMillis)

def extendOmadaClient (session : SessionParams) (durationMillis : Nat) : Except String FieldWrite × Controller issuer :=
  calling link clock controller "Extend" (.extend session.clientId durationMillis) (extended durationMillis)

def disconnectOmadaClient (session : SessionParams) : Except String FieldWrite × Controller issuer :=
  calling link clock controller "Disconnect" (.disconnect session.clientId) disconnected

end

section
variable {issuer : Issuer} {link : Link} {clock : Nat} {controller : Controller issuer} {call : String}
  {request : Request}

theorem readReply_ok {reply : Reply} : readReply call reply = .ok () ↔ reply.errorCode = 0 := by
  unfold readReply
  split <;> simp_all

/-- A call succeeds exactly when the controller is reached, does what is asked and
    its answer arrives. -/
theorem calling_ok {accepted fields : FieldWrite} {after : Controller issuer} :
    calling link clock controller call request accepted = (.ok fields, after) ↔
      link = .up ∧ (handle clock controller request).1.errorCode = 0 ∧
        fields = accepted ∧ after = (handle clock controller request).2 := by
  cases link with
  | loginFailed | unreachable | replyLost => simp [calling, omadaCall, Except.map]
  | up =>
    cases answer : readReply call (handle clock controller request).1 with
    | error detail =>
      have refused : (handle clock controller request).1.errorCode ≠ 0 := by
        intro ok
        rw [readReply_ok.mpr ok] at answer
        cases answer
      simp [calling, omadaCall, answer, Except.map, refused]
    | ok _ => simp [calling, omadaCall, answer, Except.map, readReply_ok.mp answer, eq_comm]

/-- A call that reports an error has changed nothing, unless the reply was lost. -/
theorem calling_refused {accepted : FieldWrite} {detail : String} {after : Controller issuer}
    (acknowledged : link.Acknowledged)
    (refused : calling link clock controller call request accepted = (.error detail, after)) :
    after = controller := by
  cases link with
  | loginFailed | unreachable =>
    simp only [calling, omadaCall, Prod.mk.injEq] at refused
    exact refused.2.symm
  | replyLost failure => exact absurd rfl (acknowledged failure)
  | up =>
    simp only [calling, omadaCall, Prod.mk.injEq] at refused
    refine refused.2 ▸ handle_refused fun ok => ?_
    rw [readReply_ok.mpr ok] at refused
    exact nomatch refused.1

theorem calling_continues (accepted : FieldWrite) :
    Controller.Continues controller (calling link clock controller call request accepted).2 := by
  cases link with
  | loginFailed | unreachable => exact .refl controller
  | replyLost | up => exact handle_continues request

theorem calling_later {accepted : FieldWrite} {reported : Except String FieldWrite} {after : Controller issuer}
    (called : calling link clock controller call request accepted = (reported, after)) :
    Controller.Continues controller after := by
  have later := @calling_continues _ link clock controller call request accepted
  rwa [called] at later

theorem calling_session (accepted : FieldWrite) {mac : String} (other : ¬ Concerns controller request mac) :
    (calling link clock controller call request accepted).2.session mac = controller.session mac := by
  cases link with
  | loginFailed | unreachable => rfl
  | replyLost | up => exact handle_session other

/-- A call moves the end of no client but the one it is about, whatever it reports. -/
theorem calling_sessionEnd (accepted : FieldWrite) {mac : String} (other : ¬ Concerns controller request mac) :
    (calling link clock controller call request accepted).2.sessionEnd mac = controller.sessionEnd mac := by
  unfold Controller.sessionEnd
  rw [calling_session accepted other]

end

/-! ### The three calls -/

section
variable {issuer : Issuer} {link : Link} {clock : Nat} {controller after : Controller issuer} {config : Config}
  {session : SessionParams} {durationMillis : Nat} {fields : FieldWrite}

theorem authenticate_ok :
    authenticateOmadaClient link clock controller config session durationMillis = (.ok fields, after) ↔
      link = .up ∧ fields = authenticated (nowEpochMillis clock) durationMillis ∧
        after = handleAuth clock controller (authRequest config session durationMillis) := by
  rw [authenticateOmadaClient, calling_ok]
  simp [handle]

theorem authRequest_sessionEnd (config : Config) (session : SessionParams) (durationMillis : Nat) :
    (handleAuth clock controller (authRequest config session durationMillis)).sessionEnd session.clientMac =
      if durationMillis = 0 then 0 else clock + durationMillis := by
  simp [auth_sessionEnd, authRequest]

theorem extend_ok :
    extendOmadaClient link clock controller session durationMillis = (.ok fields, after) ↔
      link = .up ∧ fields = extended durationMillis ∧ (controller.sessionById session.clientId).isSome ∧
        after = controller.revise (fun row => row.id = session.clientId) (prolonged durationMillis) := by
  rw [extendOmadaClient, calling_ok]
  cases found : controller.sessionById session.clientId <;> simp [handle, handleExtend, found, clientNotFound]

theorem disconnect_ok :
    disconnectOmadaClient link clock controller session = (.ok fields, after) ↔
      link = .up ∧ fields = disconnected ∧ (controller.sessionById session.clientId).isSome ∧
        after = controller.revise (fun row => row.id = session.clientId) (ended clock) := by
  rw [disconnectOmadaClient, calling_ok]
  cases found : controller.sessionById session.clientId <;> simp [handle, handleDisconnect, found, clientNotFound]

end

end EllaFi.Omada
