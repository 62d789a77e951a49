import EllaFi.AdoptDevice

/-!
What the emulated device keeps to. A contract says what can happen next on the wire, by what
the controller has said so far; whatever comes and wherever the process is killed, the log
of all channels and starts keeps to it (`contract_kept`). Between the bytes and the messages
it makes no difference how the stream is cut (`converse_stream`).
-/
namespace EllaFi.AdoptChannel
open EllaFi.AdoptDevice
open EllaFi.EcspFrames (Bytes Socket Read Sent Event Readable readFrame readFrame_smaller)
open EllaFi.JsonDoc (Value)
open EllaFi.TextLines (Text)
open EllaFi.Pieces (symbols symbols_eq_nil)
open EllaFi.Runs (run)

/-! ## The contract -/

inductive Phase (F : Type) where
  | off
  | hung
  | greeting
  | opening
  | refused
  | challenged (r : Value F)
  | up (synced : Bool)
  | storing (r : Value F) (account : Account F) (synced : Bool)
  | owing (r : Value F) (synced : Bool)

/-- What the log says: the account that the device was given, how many messages of its own
    it has sent, the configuration that it has, and where the conversation stands. -/
structure Told (F : Type) where
  account : Option (Account F)
  own : Nat
  version : Value F
  phase : Phase F

section
variable {F : Type}

def Told.moved (t : Told F) (phase : Phase F) : Told F := { t with phase }

/-- One more message of the device's own. -/
def Told.owned (t : Told F) (phase : Phase F) : Told F := { t with own := t.own + 1, phase }

def Told.next (t : Told F) (type : Int) (body : Body F) : Msg F := { seq := .int (t.own + 1), type, body }

/-- An answer with the number of what it answers, or with the next one where that has none. -/
def Told.respond (t : Told F) (seq : Value F) (type : Int) (body : Body F) (phase : Phase F) : Msg F × Told F :=
  if seq.isNull then (t.next type body, t.owned phase) else ({ seq, type, body }, t.moved phase)

variable (lib : Lib F)

/-- The answer that a message wants, and what is told by it; none where it wants none. -/
def Told.answer (t : Told F) (r : Value F) (synced : Bool) : Option (Msg F × Told F) :=
  match header lib r with
  | none => none
  | some (type, seq) =>
    if type = some deviceVerifyResponse then some (t.next systemVerifyResult .empty, t.owned (.up synced))
    else if type = some verifyResultAck then some (t.next deviceNegotiation (.negotiation t.version), t.owned (.up synced))
    else if type = some systemNegotiation ∨ type = some initSync then some (t.next initSyncResult .empty, t.owned (.up true))
    else if type = some setRequest then
      (body lib r).map fun config =>
        let version := (get config "configVersion" .null).getD .null
        let t := { t with version := if version.isNull then t.version else version }
        t.respond seq setResponse (configured config) (.up synced)
    else if type = some informRequest then some (t.next informResponse .empty, t.owned (.up synced))
    else none

/-- The account that is in a message with a configuration. -/
def given (r : Value F) : Option (Account F) := do
  let (type, _) ← header lib r
  if type = some systemNegotiation ∨ type = some initSync ∨ type = some setRequest then
    (accountOf lib (← body lib r)).join
  else none

/-- Where a message leads to. -/
def Told.received (t : Told F) (r : Value F) (synced : Bool) : Phase F :=
  match given lib r with
  | some account => .storing r account synced
  | none => if (t.answer lib r synced).isSome then .owing r synced else .up synced

/-- What can happen next. -/
inductive Allows : Told F → Entry F → Told F → Prop
  | booted {t} (off : t.phase = .off) : Allows t .booted { account := t.account, own := 0, version := .int 0, phase := .hung }
  | dialled {t} (hung : t.phase = .hung) : Allows t .dialled (t.moved .greeting)
  | greeted {t} (greets : t.phase = .greeting) : Allows t (.sent (t.next preConnectInfo .needUsername)) (t.owned .opening)
  | challenged {t r seq} (opens : t.phase = .opening) (response : header lib r = some (some preConnectInfoResponse, seq)) :
      Allows t (.got r) (t.moved (.challenged r))
  | refused {t r} (opens : t.phase = .opening) (other : ∀ seq, header lib r ≠ some (some preConnectInfoResponse, seq)) :
      Allows t (.got r) (t.moved .refused)
  | proved {t r auth} (challenged : t.phase = .challenged r) (proof : verifyAuth lib t.account r = some auth) :
      Allows t (.sent (t.next deviceVerifyInfo (.verify auth))) (t.owned (.up false))
  | received {t r synced} (up : t.phase = .up synced) : Allows t (.got r) (t.moved (t.received lib r synced))
  | stored {t r account synced} (stores : t.phase = .storing r account synced) :
      Allows t (.learned account) { t with account := some account, phase := .owing r synced }
  | lost {t r account synced} (stores : t.phase = .storing r account synced) :
      Allows t .lost { t with account := none, phase := .refused }
  | answered {t r synced m after} (owes : t.phase = .owing r synced) (due : t.answer lib r synced = some (m, after)) :
      Allows t (.sent m) after
  | informed {t sequenceId ssids2G ssids5G} (up : t.phase = .up true) :
      Allows t (.sent (t.next informRequest (.inform sequenceId ssids2G ssids5G))) (t.owned (.up true))
  | closed {t} (idle : t.phase = .opening ∨ t.phase = .refused ∨ ∃ synced, t.phase = .up synced) : Allows t .closed (t.moved .hung)
  | died {t} : Allows t .died (t.moved .off)

/-- A log that keeps to the contract, and what it says. -/
def Keeps (t : Told F) : List (Entry F) → Told F → Prop
  | [], last => last = t
  | entry :: log, last => ∃ next, Allows lib t entry next ∧ Keeps next log last

end

/-! ## Keeping to it -/

section
variable {F : Type} {lib : Lib F} {t next last : Told F} {log : List (Entry F)}

theorem keeps_append {before after : List (Entry F)} :
    Keeps lib t (before ++ after) last ↔ ∃ middle, Keeps lib t before middle ∧ Keeps lib middle after last := by
  induction before generalizing t with
  | nil => simp [Keeps]
  | cons entry before ih =>
    simp only [List.cons_append, Keeps, ih]
    constructor
    · rintro ⟨next, now, middle, first, later⟩
      exact ⟨middle, ⟨next, now, first⟩, later⟩
    · rintro ⟨middle, ⟨next, now, first⟩, later⟩
      exact ⟨next, now, middle, first, later⟩

theorem keeps_one {entry : Entry F} (now : Allows lib t entry last) : Keeps lib t [entry] last := ⟨last, now, rfl⟩

theorem keeps_two {first second : Entry F} (now : Allows lib t first next) (then_ : Allows lib next second last) :
    Keeps lib t [first, second] last := ⟨next, now, last, then_, rfl⟩

theorem respond_account (seq : Value F) (type : Int) (said : Body F) (phase : Phase F) :
    (t.respond seq type said phase).2.account = t.account := by
  unfold Told.respond
  split
  · rfl
  · rfl

theorem respond_phase (seq : Value F) (type : Int) (said : Body F) (phase : Phase F) :
    (t.respond seq type said phase).2.phase = phase := by
  unfold Told.respond
  split
  · rfl
  · rfl

theorem answer_account {r : Value F} {synced : Bool} {m : Msg F} (due : t.answer lib r synced = some (m, last)) :
    last.account = t.account := by
  unfold Told.answer at due
  repeat' split at due
  all_goals first
    | (cases due; rfl)
    | cases due
    | (obtain ⟨config, -, due⟩ := Option.map_eq_some_iff.mp due
       exact (congrArg (fun answer => answer.2.account) due).symm.trans (respond_account _ _ _ _))

theorem allows_file {entry : Entry F} (now : Allows lib t entry next) : fileAfter t.account [entry] = next.account := by
  cases now with
  | answered owes due => exact (answer_account due).symm
  | _ => rfl

theorem keeps_file (keeps : Keeps lib t log last) : fileAfter t.account log = last.account := by
  induction log generalizing t with
  | nil =>
    obtain rfl : last = t := keeps
    rfl
  | cons entry log ih =>
    obtain ⟨next, now, later⟩ := keeps
    rw [← ih later, ← allows_file now]
    rfl

/-- The device has what it was told. -/
structure Fits (d : Device F) (t : Told F) : Prop where
  account : d.account = t.account
  file : d.file = t.account
  own : d.seqNo = t.own
  version : d.configVersion = t.version

/-- What comes of a turn. -/
def Takes (lib : Lib F) (t : Told F) : Turn F → Prop
  | .on c log => ∃ after, Keeps lib t log after ∧ Fits c.device after ∧ after.phase = .up c.connected
  | .ended c log => ∃ after, Keeps lib t (log ++ [.closed]) after ∧ Fits c.device after ∧ after.phase = .hung
  | .raised d log => ∃ after, Keeps lib t log after ∧ d.file = after.account

variable {d : Device F} {c : Channel F} {r : Value F}

theorem fits_say (fits : Fits d t) (type : Int) (said : Body F) (phase : Phase F) :
    Fits (d.say type said).1 (t.owned phase) ∧ (d.say type said).2 = .sent (t.next type said) := by
  refine ⟨⟨fits.account, fits.file, congrArg (· + 1) fits.own, fits.version⟩, ?_⟩
  simp only [Device.say, Told.next, fits.own]

/-- A message and its answer, with the account stored first if there is one. -/
theorem keeps_answer {synced : Bool} {account : Option (Account F)} {m : Msg F} (up : t.phase = .up synced)
    (own : given lib r = account) (due : { t with account := account.or t.account }.answer lib r synced = some (m, last)) :
    Keeps lib t (.got r :: (d.learn account).2 ++ [.sent m]) last := by
  cases account with
  | none =>
    have due : t.answer lib r synced = some (m, last) := due
    have owes : t.received lib r synced = .owing r synced := by simp [Told.received, own, due]
    exact keeps_two (.received up) (.answered (by exact owes) due)
  | some account =>
    have stores : t.received lib r synced = .storing r account synced := by simp [Told.received, own]
    exact ⟨_, .received up, _, .stored stores, _, .answered rfl due, rfl⟩

/-- The account alone. -/
theorem keeps_learned {synced : Bool} {account : Option (Account F)} (up : t.phase = .up synced) (own : given lib r = account) :
    ∃ after, Keeps lib t (.got r :: (d.learn account).2) after ∧ after.account = account.or t.account := by
  cases account with
  | none => exact ⟨_, keeps_one (.received up), rfl⟩
  | some account =>
    have stores : t.received lib r synced = .storing r account synced := by simp [Told.received, own]
    exact ⟨_, keeps_two (.received up) (.stored stores), rfl⟩

theorem given_other {type : Option Int} {seq : Value F} (read : header lib r = some (type, seq))
    (other : ¬ (type = some systemNegotiation ∨ type = some initSync ∨ type = some setRequest)) : given lib r = none := by
  simp [given, read, other]

theorem given_config {type : Option Int} {seq config : Value F} {account : Option (Account F)} (read : header lib r = some (type, seq))
    (configures : type = some systemNegotiation ∨ type = some initSync ∨ type = some setRequest)
    (some_ : body lib r = some config) (found : accountOf lib config = some account) : given lib r = account := by
  simp [given, read, configures, some_, found]

/-- What was got is always allowed to be the last. -/
theorem takes_raised {synced : Bool} (fits : Fits d t) (up : t.phase = .up synced) : Takes lib t (.raised d [.got r]) :=
  ⟨_, keeps_one (.received up), fits.file⟩

theorem fits_learn (fits : Fits d t) (account : Option (Account F)) :
    Fits (d.learn account).1 { t with account := account.or t.account } := by
  cases account with
  | none => exact ⟨fits.account, fits.file, fits.own, fits.version⟩
  | some account => exact ⟨rfl, rfl, fits.own, fits.version⟩

theorem configure_some {config : Value F} {configuredTo : Device F} (done : d.configure lib config = some configuredTo)
    (fits : Fits d t) :
    let version := (get config "configVersion" .null).getD .null
    Fits configuredTo { t with version := if version.isNull then t.version else version } := by
  simp only [Device.configure, Option.bind_eq_bind, Option.bind_eq_some_iff] at done
  obtain ⟨version, got, sequenceId, -, ssids2G, -, ssids5G, -, done⟩ := done
  cases done
  rw [got, Option.getD_some, ← fits.version]
  exact ⟨fits.account, fits.file, fits.own, rfl⟩

theorem fits_phase (fits : Fits d t) (phase : Phase F) : Fits d (t.moved phase) :=
  ⟨fits.account, fits.file, fits.own, fits.version⟩

theorem fits_respond (fits : Fits d t) (seq : Value F) (type : Int) (said : Body F) (phase : Phase F) :
    Fits (d.respond seq type said).1 (t.respond seq type said phase).2 ∧
      (d.respond seq type said).2 = .sent (t.respond seq type said phase).1 := by
  unfold Device.respond Told.respond
  split
  · exact fits_say fits type said phase
  · exact ⟨fits_phase fits phase, rfl⟩

/-- The types are no two the same. -/
theorem not_setRequest {type : Option Int} (other : type ≠ some setRequest)
    (configures : type = some systemNegotiation ∨ type = some initSync ∨ type = some setRequest) :
    type = some systemNegotiation ∨ type = some initSync := by
  rcases configures with negotiation | sync | set
  · exact .inl negotiation
  · exact .inr sync
  · exact absurd set other

theorem answer_sync {type : Option Int} {seq : Value F} {synced : Bool} (read : header lib r = some (type, seq))
    (syncs : type = some systemNegotiation ∨ type = some initSync) :
    t.answer lib r synced = some (t.next initSyncResult .empty, t.owned (.up true)) := by
  rw [Told.answer, read]
  rcases syncs with rfl | rfl <;> rfl

theorem answer_set {seq config : Value F} {synced : Bool} (read : header lib r = some (some setRequest, seq))
    (some_ : body lib r = some config) :
    let version := (get config "configVersion" .null).getD .null
    t.answer lib r synced = some
      (Told.respond { t with version := if version.isNull then t.version else version } seq setResponse (configured config)
        (.up synced)) := by
  rw [Told.answer, read, some_]
  rfl

theorem takes_config {type : Option Int} {seq : Value F} (read : header lib r = some (type, seq))
    (configures : type = some systemNegotiation ∨ type = some initSync ∨ type = some setRequest)
    (fits : Fits c.device t) (up : t.phase = .up c.connected) : Takes lib t (c.handleConfig lib r type seq) := by
  unfold Channel.handleConfig
  split
  · exact takes_raised fits up
  · next config some_ =>
    split
    · exact takes_raised fits up
    · next account found =>
      have own : given lib r = account := given_config read configures some_ found
      have learned := fits_learn fits account
      dsimp only
      split
      · next set =>
        subst set
        split
        · obtain ⟨after, keeps, told⟩ := keeps_learned (d := c.device) up own
          exact ⟨after, keeps, learned.file.trans told.symm⟩
        · next done =>
          obtain ⟨responded, same⟩ :=
            fits_respond (configure_some done learned) seq setResponse (configured config) (.up c.connected)
          rw [same]
          exact ⟨_, keeps_answer up own (answer_set read some_), responded, respond_phase _ _ _ _⟩
      · next other =>
        have due : Told.answer lib { t with account := account.or t.account } r c.connected = _ :=
          answer_sync read (not_setRequest other configures)
        obtain ⟨said, same⟩ := fits_say learned initSyncResult .empty (.up true)
        rw [same]
        exact ⟨_, keeps_answer up own due, said, rfl⟩

/-- A message without a configuration that is answered with one of the device's own. -/
theorem takes_say {type : Int} {said : Body F} (fits : Fits c.device t) (up : t.phase = .up c.connected)
    (none_ : given lib r = none)
    (due : t.answer lib r c.connected = some (t.next type said, t.owned (.up c.connected))) :
    ∃ after, Keeps lib t [.got r, (c.device.say type said).2] after ∧ Fits (c.device.say type said).1 after ∧
      after.phase = .up c.connected := by
  obtain ⟨own, same⟩ := fits_say fits type said (.up c.connected)
  rw [same]
  exact ⟨_, keeps_answer (d := c.device) up none_ due, own, rfl⟩

theorem takes_handle (fits : Fits c.device t) (up : t.phase = .up c.connected) : Takes lib t (c.handle lib r) := by
  unfold Channel.handle
  split
  · exact takes_raised fits up
  · next type seq read =>
    dsimp only
    split
    · next verify =>
      subst verify
      exact takes_say fits up (given_other read (by decide)) (by rw [Told.answer, read]; rfl)
    · next unverified =>
      split
      · next ack =>
        subst ack
        have due : t.answer lib r c.connected =
            some (t.next deviceNegotiation (.negotiation c.device.configVersion), t.owned (.up c.connected)) := by
          rw [Told.answer, read, fits.version]
          rfl
        exact takes_say fits up (given_other read (by decide)) due
      · next unacked =>
        split
        · next configures => exact takes_config (c := { c with seen := c.seen ++ [type] }) read configures fits up
        · next other =>
          split
          · next inform =>
            subst inform
            exact takes_say fits up (given_other read (by decide)) (by rw [Told.answer, read]; rfl)
          · next quiet =>
            have none_ := given_other read other
            have unsynced : ¬ (type = some systemNegotiation ∨ type = some initSync) := fun syncs =>
              other (syncs.imp_right .inl)
            have unset : type ≠ some setRequest := fun set => other (.inr (.inr set))
            have nothing : t.answer lib r c.connected = none := by
              rw [Told.answer, read]
              dsimp only
              rw [if_neg unverified, if_neg unacked, if_neg unsynced, if_neg unset, if_neg quiet]
            refine ⟨_, keeps_one (.received up), fits_phase fits _, ?_⟩
            show t.received lib r c.connected = _
            simp [Told.received, none_, nothing]

theorem takes_inform (fits : Fits c.device t) (up : t.phase = .up c.connected) (connected : c.connected = true) :
    Takes lib t (.on c.inform.1 [c.inform.2]) := by
  have counted : Fits { c.device with informSeq := c.device.informSeq + 1 } t := ⟨fits.account, fits.file, fits.own, fits.version⟩
  obtain ⟨own, same⟩ := fits_say counted informRequest
    (.inform (c.device.informSeq + 1) c.device.ssids2G c.device.ssids5G) (.up true)
  rw [connected] at up
  refine ⟨t.owned (.up true), ?_, own, connected ▸ rfl⟩
  have said : c.inform.2 = .sent (t.next informRequest (.inform (c.device.informSeq + 1) c.device.ssids2G c.device.ssids5G)) := same
  rw [said]
  exact keeps_one (.informed up)

theorem takes_ended (fits : Fits c.device t) (up : t.phase = .up c.connected) : Takes lib t (.ended c []) :=
  ⟨_, keeps_one (.closed (.inr (.inr ⟨_, up⟩))), fits_phase fits _, rfl⟩

theorem takes_turn (fits : Fits c.device t) (up : t.phase = .up c.connected) (read : Read (Value F)) :
    Takes lib t (c.turn lib read) := by
  have idle : Takes lib t (if c.connected then .on c.inform.1 [c.inform.2] else .on c []) := by
    split
    · next connected => exact takes_inform fits up connected
    · exact ⟨t, rfl, fits, up⟩
  unfold Channel.turn
  split
  · exact idle
  · split
    · exact takes_handle fits up
    · exact idle
    · exact takes_ended fits up
  · exact takes_ended fits up
  · exact takes_ended fits up

theorem takes_open (fits : Fits d t) (opens : t.phase = .opening) (read : Read (Value F)) : Takes lib t (d.opened lib read) := by
  have ended : Takes lib t (.ended { device := d, keyed := false, connected := false, seen := [] } []) :=
    ⟨_, keeps_one (.closed (.inl opens)), fits_phase fits _, rfl⟩
  unfold Device.opened
  split
  · split
    · next members _ =>
      split
      · next failed =>
        have other : ∀ seq, header lib (.object members) ≠ some (some preConnectInfoResponse, seq) := by simp [failed]
        exact ⟨_, keeps_one (.refused opens other), fits.file⟩
      · next type seq found =>
        dsimp only
        split
        · next wrong =>
          have other : ∀ seq, header lib (.object members) ≠ some (some preConnectInfoResponse, seq) := by
            intro _ same
            exact wrong (Prod.mk.inj (Option.some.inj (found.symm.trans same))).1
          exact ⟨_, keeps_two (.refused opens other) (.closed (.inr (.inl rfl))), fits_phase fits _, rfl⟩
        · next right =>
          have response : header lib (.object members) = some (some preConnectInfoResponse, seq) := by
            rw [found, not_not.mp right]
          split
          · exact ⟨_, keeps_one (.challenged opens response), fits.file⟩
          · next auth proof =>
            obtain ⟨own, same⟩ := fits_say (fits_phase fits (.challenged (.object members))) deviceVerifyInfo (.verify auth) (.up false)
            have said : (Channel.say { device := d, keyed := false, connected := false, seen := [type] } deviceVerifyInfo
                (.verify auth)).2 = _ := same
            rw [said]
            rw [fits.account] at proof
            exact ⟨_, keeps_two (.challenged opens response) (.proved rfl proof), own, rfl⟩
    · exact ended
  · exact ended

/-! ## Whole runs -/

/-- What the process has is what it was told. -/
def Agrees (p : Process F) (t : Told F) : Prop :=
  match p.place with
  | .off => p.device.file = t.account ∧ t.phase = .off
  | .top => Fits p.device t ∧ t.phase = .hung
  | .waiting => Fits p.device t ∧ t.phase = .hung
  | .opening _ => Fits p.device t ∧ t.phase = .opening
  | .driving _ c => Fits c.device t ∧ t.phase = .up c.connected

theorem agrees_off {file : Option (Account F)} (kept : file = t.account) : Agrees (.off file) (t.moved .off) := ⟨kept, rfl⟩

theorem agrees_died {file : Option (Account F)} (keeps : Keeps lib t log last) (kept : file = last.account) :
    ∃ after, Keeps lib t (log ++ [.died]) after ∧ Agrees (.off file) after :=
  ⟨_, keeps_append.mpr ⟨last, keeps, keeps_one .died⟩, agrees_off kept⟩

theorem agrees_afterChannel {p : Process F} {relink : Bool} {seen : List (Option Int)} (fits : Fits d t) (hung : t.phase = .hung) :
    Agrees (p.afterChannel relink d seen) t := by
  cases relink with
  | false => exact ⟨fits, hung⟩
  | true =>
    unfold Process.afterChannel Agrees
    cases linked seen with
    | false => exact ⟨fits, hung⟩
    | true => exact ⟨fits, hung⟩

theorem agrees_comeTo {p : Process F} {relink : Bool} {turn : Turn F} (takes : Takes lib t turn) :
    ∃ after, Keeps lib t (p.comeTo relink turn).2 after ∧ Agrees (p.comeTo relink turn).1 after := by
  cases turn with
  | on c log =>
    obtain ⟨after, keeps, fits, up⟩ := takes
    exact ⟨after, keeps, fits, up⟩
  | ended c log =>
    obtain ⟨after, keeps, fits, hung⟩ := takes
    exact ⟨after, keeps, agrees_afterChannel fits hung⟩
  | raised d log =>
    obtain ⟨after, keeps, kept⟩ := takes
    exact agrees_died keeps kept

theorem agrees_file {p : Process F} (agrees : Agrees p t) : p.current.file = t.account := by
  obtain ⟨device, adoptedOnce, place⟩ := p
  cases place with
  | off => exact agrees.1
  | top => exact agrees.1.file
  | waiting => exact agrees.1.file
  | opening relink => exact agrees.1.file
  | driving relink c => exact agrees.1.file

theorem takes_process {p : Process F} {read : Read (Value F)} {relink : Bool} {turn : Turn F} (agrees : Agrees p t)
    (turned : p.turn lib read = some (relink, turn)) : Takes lib t turn := by
  unfold Process.turn at turned
  unfold Agrees at agrees
  split at turned
  · next relink place =>
    cases turned
    rw [place] at agrees
    exact takes_open agrees.1 agrees.2 read
  · next relink c place =>
    cases turned
    rw [place] at agrees
    exact takes_turn agrees.1 agrees.2 read
  · cases turned

theorem takes_log {turn : Turn F} (takes : Takes lib t turn) : ∃ after, Keeps lib t turn.log after := by
  cases turn with
  | on c log =>
    obtain ⟨after, keeps, -⟩ := takes
    exact ⟨after, keeps⟩
  | ended c log =>
    obtain ⟨after, keeps, -⟩ := takes
    obtain ⟨middle, before, -⟩ := keeps_append.mp keeps
    exact ⟨middle, before⟩
  | raised d log =>
    obtain ⟨after, keeps, -⟩ := takes
    exact ⟨after, keeps⟩

/-- A process that is killed with some of a turn done. -/
theorem agrees_killed {turn : Turn F} (takes : Takes lib t turn) (count : Nat) :
    ∃ after, Keeps lib t (turn.log.take count ++ [.died]) after ∧ Agrees (.off (fileAfter t.account (turn.log.take count))) after := by
  obtain ⟨whole, keeps⟩ := takes_log takes
  rw [← List.take_append_drop count turn.log] at keeps
  obtain ⟨middle, before, -⟩ := keeps_append.mp keeps
  exact agrees_died before (keeps_file before)

/-- One that is killed while it stores an account. -/
theorem agrees_saving {turn : Turn F} {got : Entry F} {account : Account F} {rest : List (Entry F)} (takes : Takes lib t turn)
    (saves : turn.log = got :: .learned account :: rest) :
    ∃ after, Keeps lib t [got, .lost, .died] after ∧ Agrees (.off none) after := by
  obtain ⟨whole, keeps⟩ := takes_log takes
  rw [saves] at keeps
  obtain ⟨stored, now, later, learned, -⟩ := keeps
  cases learned with
  | stored stores => exact ⟨_, ⟨stored, now, _, .lost stores, _, .died, rfl⟩, agrees_off rfl⟩

theorem agrees_dialled {p : Process F} {relink connects : Bool} (fits : Fits p.device t) (hung : t.phase = .hung) :
    ∃ after, Keeps lib t (p.dialled relink connects).2 after ∧ Agrees (p.dialled relink connects).1 after := by
  cases connects with
  | false => exact ⟨t, rfl, agrees_afterChannel fits hung⟩
  | true =>
    obtain ⟨own, same⟩ := fits_say (fits_phase fits .greeting) preConnectInfo .needUsername .opening
    have said : (p.dialled relink true).2 = [.dialled, (p.device.say preConnectInfo .needUsername).2] := rfl
    rw [said, same]
    exact ⟨_, keeps_two (.dialled hung) (.greeted rfl), own, rfl⟩

theorem agrees_step {p : Process F} {a : Action F} {after : Process F × List (Entry F)} (agrees : Agrees p t)
    (taken : step lib p a = some after) : ∃ told, Keeps lib t after.2 told ∧ Agrees after.1 told := by
  cases a with
  | boot =>
    obtain ⟨device, adoptedOnce, place⟩ := p
    cases place with
    | off =>
      obtain ⟨kept, off⟩ := agrees
      cases taken
      exact ⟨_, keeps_one (.booted off), ⟨kept, kept, rfl, rfl⟩, rfl⟩
    | _ => cases taken
  | wait =>
    obtain ⟨device, adoptedOnce, place⟩ := p
    cases place with
    | top =>
      simp only [step] at taken
      split at taken
      · cases taken
      · cases taken
        exact ⟨t, rfl, agrees⟩
    | waiting =>
      cases taken
      exact ⟨t, rfl, agrees⟩
    | _ => cases taken
  | dial connects =>
    obtain ⟨device, adoptedOnce, place⟩ := p
    cases place with
    | top =>
      simp only [step] at taken
      split at taken
      · cases taken
        exact agrees_dialled agrees.1 agrees.2
      · cases taken
    | waiting =>
      cases taken
      exact agrees_dialled agrees.1 agrees.2
    | _ => cases taken
  | read r =>
    obtain ⟨⟨relink, turn⟩, turned, rfl⟩ := Option.map_eq_some_iff.mp taken
    exact agrees_comeTo (takes_process agrees turned)
  | kill =>
    have died : ∃ told, Keeps lib t [.died] told ∧ Agrees (.off p.current.file) told :=
      ⟨_, keeps_one .died, agrees_off (agrees_file agrees)⟩
    simp only [step] at taken
    split at taken
    · cases taken
    · cases taken
      exact died
  | killReading r count =>
    obtain ⟨⟨relink, turn⟩, turned, rfl⟩ := Option.map_eq_some_iff.mp taken
    rw [agrees_file agrees]
    exact agrees_killed (takes_process agrees turned) count
  | killSaving r =>
    simp only [step] at taken
    split at taken
    · next relink turn turned =>
      split at taken
      · next got account rest saves =>
        cases taken
        exact agrees_saving (takes_process agrees turned) saves
      · cases taken
    · cases taken

/-- What the process was told before it ran. -/
def told (file : Option (Account F)) : Told F := { account := file, own := 0, version := .int 0, phase := .off }

/-- Whatever happens, the log keeps to the contract, and the process has what the log says. -/
theorem contract_kept {file : Option (Account F)} {actions : List (Action F)} {last : Process F × List (Entry F)}
    (ran : run (logged lib) (.off file, []) actions = some last) :
    ∃ after, Keeps lib (told file) last.2 after ∧ Agrees last.1 after := by
  let Holds : Process F × List (Entry F) → Prop := fun s => ∃ after, Keeps lib (told file) s.2 after ∧ Agrees s.1 after
  have first : Holds (.off file, []) := ⟨told file, rfl, rfl, rfl⟩
  have keeps : ∀ s a next, Holds s → logged lib s a = some next → Holds next := by
    rintro ⟨p, log⟩ a ⟨next, more⟩ ⟨before, keeps, agrees⟩ taken
    obtain ⟨⟨after, entries⟩, stepped, same⟩ := Option.map_eq_some_iff.mp taken
    cases same
    obtain ⟨later, now, agreed⟩ := agrees_step agrees stepped
    exact ⟨later, keeps_append.mpr ⟨before, keeps, now⟩, agreed⟩
  exact Runs.run_keeps keeps first ran

end

/-- The digests of what a conversation needs. -/
def digests : Lib Empty where
  whole := nofun
  sha256Hex t :=
    (([("admin21232F297A57A5A743894A0E4A801FC3", "CBC4FBF142315EBD317081C993CE89D9A3298E49048B812F37969531318917A6"),
      ("CBC4FBF142315EBD317081C993CE89D9A3298E49048B812F37969531318917A6k1",
        "4C9ECC129F163616A399235322C46FBFA8FA6F67755940047965DC23B8A6746F"),
      ("site8FE4C11451281C094A6578E6DDBF5EED", "3F7BBC63693D4714065FBB3C1F3783B93499A3D25983BAA3C0E45F00E7CBC1B4"),
      ("3F7BBC63693D4714065FBB3C1F3783B93499A3D25983BAA3C0E45F00E7CBC1B4k2",
        "0D2FED495D738F520D167FD64F3F78C96685D9AB8139499E1382AE2972F30D9D")].lookup (String.ofList t)).getD "").toList
  md5Hex t := if t = "admin".toList then "21232F297A57A5A743894A0E4A801FC3".toList else []
  upper t := t.map Char.toUpper

def message (type seq : Int) (body : List (String × Value Empty)) : Value Empty :=
  .object [("header".toList, .object [("seq".toList, .int seq), ("type".toList, .int type)]),
    ("body".toList, .object (body.map fun member => (member.1.toList, member.2)))]

def challenge (key : String) : Value Empty :=
  message preConnectInfoResponse 1 [("randomKeyForDeviceVerify", .text key.toList)]

def ack : Value Empty := message verifyResultAck 2 []

def negotiation : Value Empty :=
  message systemNegotiation 3 [("userAccount", .object [("newUsername".toList, .text "site".toList),
    ("newPassword".toList, .text "8fe4c11451281c094a6578e6ddbf5eed".toList)])]

def site : Account Empty := { user := .text "site".toList, md5 := "8FE4C11451281C094A6578E6DDBF5EED".toList }

/-- A configuration, with a number or without. -/
def setting (seq : List (Text × Value Empty)) : Value Empty :=
  .object [("header".toList, .object (("type".toList, .int setRequest) :: seq)),
    ("body".toList, .object [("configVersion".toList, .int 7)])]

def numbered : Value Empty := setting [("seq".toList, .int 9)]

def unnumbered : Value Empty := setting []

/-- The device is adopted and configured, its process killed, and it comes back with the
    account that it was given. -/
def adopted : List (Action Empty) :=
  [.boot, .wait, .dial true, .read (.heard (.doc (challenge "k1"))), .read (.heard (.doc ack)), .read .timeout,
    .read (.heard (.doc negotiation)), .read (.heard (.doc numbered)), .read (.heard (.doc unnumbered)), .kill, .boot,
    .dial true, .read (.heard (.doc (challenge "k2")))]

def own (seq : Nat) (type : Int) (body : Body Empty) : Entry Empty := .sent { seq := .int seq, type, body }

def adoptedLog : List (Entry Empty) :=
  [.booted, .dialled, own 1 preConnectInfo .needUsername, .got (challenge "k1"),
    own 2 deviceVerifyInfo (.verify "4C9ECC129F163616A399235322C46FBFA8FA6F67755940047965DC23B8A6746F".toList),
    .got ack, own 3 deviceNegotiation (.negotiation (.int 0)), .got negotiation, .learned site,
    own 4 initSyncResult .empty, .got numbered,
    .sent { seq := .int 9, type := setResponse, body := .setResponse .null (.int 7) }, .got unnumbered,
    own 5 setResponse (.setResponse .null (.int 7)), .died, .booted, .dialled, own 1 preConnectInfo .needUsername, .got (challenge "k2"),
    own 2 deviceVerifyInfo (.verify "0D2FED495D738F520D167FD64F3F78C96685D9AB8139499E1382AE2972F30D9D".toList)]

theorem adopted_seen : ∃ last, run (logged digests) (.off none, []) adopted = some last ∧ last.2 = adoptedLog :=
  ⟨_, rfl, rfl⟩

theorem contract_kept_adopted : ∃ after, Keeps digests (told none) adoptedLog after := by
  obtain ⟨last, ran, log⟩ := adopted_seen
  obtain ⟨after, keeps, -⟩ := contract_kept ran
  exact ⟨after, log ▸ keeps⟩

/-! ## On the wire -/

section
variable {F : Type} (lib : Lib F) (loads : Bytes → Option (Value F)) (sessionKey : Bytes)

/-- What the device reads with. -/
def rc4Key (c : Channel F) : Option Bytes := if c.keyed then some sessionKey else none

/-- The loop over the connection, from behind the opening. -/
def driveChannel (c : Channel F) (sock : Socket) : List (Entry F) :=
  if _ended : sock = [] then [.closed]
  else
    match c.turn lib (readFrame loads (rc4Key sessionKey c) sock).1 with
    | .on next log => log ++ driveChannel next (readFrame loads (rc4Key sessionKey c) sock).2
    | .ended _ log => log ++ [.closed]
    | .raised _ log => log ++ [.died]
termination_by (symbols sock).length
decreasing_by exact readFrame_smaller _ended

/-- The same with the frames and pauses themselves. -/
def converse (c : Channel F) : List Event → List (Entry F)
  | [] => [.closed]
  | event :: events =>
    match c.turn lib (event.read loads (rc4Key sessionKey c)) with
    | .on next log => log ++ converse next events
    | .ended _ log => log ++ [.closed]
    | .raised _ log => log ++ [.died]

/-- Each frame can be read with what the device has when it comes. -/
def Understood (c : Channel F) : List Event → Prop
  | [] => True
  | event :: events =>
    (∀ sent, event = .frame sent → Readable (rc4Key sessionKey c) sent) ∧
      ∀ next log, c.turn lib (event.read loads (rc4Key sessionKey c)) = .on next log → Understood next events

variable {lib loads sessionKey} {c : Channel F} {sock : Socket} {rest : List (UInt8 ⊕ EcspFrames.Signal)}

/-- What can be read is sent alike with the key or without. -/
theorem wire_rc4Key {sent : Sent} (readable : Readable (rc4Key sessionKey c) sent) : sent.wire (some sessionKey) = sent.wire (rc4Key sessionKey c) := by
  cases sent with
  | plain body => rfl
  | sealed body =>
    obtain ⟨-, own, held, -⟩ := readable
    unfold rc4Key at held ⊢
    split at held
    · next keyed => rw [if_pos keyed]
    · cases held

variable (loads) in
theorem read_event {event : Event} (readable : ∀ sent, event = .frame sent → Readable (rc4Key sessionKey c) sent)
    (there : symbols sock = event.symbols (some sessionKey) ++ rest) :
    ∃ left, readFrame loads (rc4Key sessionKey c) sock = (event.read loads (rc4Key sessionKey c), left) ∧ symbols left = rest := by
  cases event with
  | frame sent =>
    have own := readable sent rfl
    rw [Event.symbols, wire_rc4Key own] at there
    exact EcspFrames.readFrame_sent loads own there
  | pause => exact EcspFrames.readFrame_pause loads (rc4Key sessionKey c) there

/-- However the stream is cut, the device does what it does with the frames. -/
theorem converse_stream {events : List Event} (understood : Understood lib loads sessionKey c events)
    (carried : symbols sock = events.flatMap (Event.symbols (some sessionKey))) :
    driveChannel lib loads sessionKey c sock = converse lib loads sessionKey c events := by
  induction events generalizing c sock with
  | nil =>
    rw [symbols_eq_nil.mp carried, driveChannel, dif_pos rfl]
    rfl
  | cons event events ih =>
    obtain ⟨readable, later⟩ := understood
    obtain ⟨left, read, remains⟩ := read_event loads readable carried
    have some_ : sock ≠ [] := by
      rintro rfl
      cases event with
      | frame sent => cases read
      | pause => cases read
    rw [driveChannel, dif_neg some_, read, converse]
    dsimp only
    split
    · next next log on => rw [ih (later next log on) remains]
    · rfl
    · rfl

/-- The key is not taken back. -/
theorem handleConfig_keyed {r seq : Value F} {type : Option Int} {next : Channel F} {log : List (Entry F)} (keyed : c.keyed = true)
    (on : c.handleConfig lib r type seq = .on next log) : next.keyed = true := by
  unfold Channel.handleConfig at on
  split at on
  · cases on
  · split at on
    · cases on
    · dsimp only at on
      split at on
      · split at on
        · cases on
        · cases on
          exact keyed
      · cases on
        exact keyed

theorem handle_keyed {r : Value F} {next : Channel F} {log : List (Entry F)} (keyed : c.keyed = true)
    (on : c.handle lib r = .on next log) : next.keyed = true := by
  unfold Channel.handle at on
  split at on
  · cases on
  · dsimp only at on
    split at on
    · cases on
      exact keyed
    · split at on
      · cases on
        rfl
      · split at on
        · exact handleConfig_keyed (by exact keyed) on
        · split at on
          · cases on
            exact keyed
          · cases on
            exact keyed

theorem turn_keyed {read : Read (Value F)} {next : Channel F} {log : List (Entry F)} (keyed : c.keyed = true)
    (on : c.turn lib read = .on next log) : next.keyed = true := by
  have idle : (if c.connected then Turn.on c.inform.1 [c.inform.2] else .on c []) = .on next log → next.keyed = true := by
    intro on
    split at on
    · cases on
      exact keyed
    · cases on
      exact keyed
  unfold Channel.turn at on
  split at on
  · exact idle on
  · split at on
    · exact handle_keyed keyed on
    · exact idle on
    · cases on
  · cases on
  · cases on

/-- Once the controller has the key, it is enough that each frame can be read with it. -/
theorem understood_keyed {events : List Event} (keyed : c.keyed = true)
    (readable : ∀ sent, .frame sent ∈ events → Readable (some sessionKey) sent) : Understood lib loads sessionKey c events := by
  induction events generalizing c with
  | nil => trivial
  | cons event events ih =>
    refine ⟨?_, ?_⟩
    · rintro sent rfl
      rw [rc4Key, if_pos keyed]
      exact readable sent List.mem_cons_self
    · intro next log on
      exact ih (turn_keyed keyed on) fun sent inside => readable sent (List.mem_cons_of_mem _ inside)

end

/-- The channel before the acknowledgement. -/
def provedChannel : Channel Empty where
  device := { Device.started none with seqNo := 2 }
  keyed := false
  connected := false
  seen := [some preConnectInfoResponse]

def sync : Value Empty := message initSync 3 []

def bytes (text : String) : Bytes := text.toList.map fun c => .ofNat c.toNat

def ackText : Bytes := bytes "\x7b\"header\":\x7b\"seq\":2,\"type\":1048585\x7d,\"body\":\x7b\x7d\x7d"

def syncText : Bytes := bytes "\x7b\"header\":\x7b\"seq\":3,\"type\":4352\x7d,\"body\":\x7b\x7d\x7d"

def loads (text : Bytes) : Option (Value Empty) :=
  if text = ackText then some ack else if text = syncText then some sync else none

/-- The acknowledgement is plain; from then on the configuration comes encrypted, and then
    nothing for some time. -/
def quiet : List Event := [.frame (.plain ackText), .frame (.sealed syncText), .pause]

theorem converse_stream_bytes :
    driveChannel digests loads [75, 101, 121] provedChannel (quiet.flatMap (Event.singles (some [75, 101, 121]))) =
      [.got ack, own 3 deviceNegotiation (.negotiation (.int 0)), .got sync, own 4 initSyncResult .empty,
        own 5 informRequest (.inform 1 [] []), .closed] := by
  have sealed_ : ∀ sent, .frame sent ∈ quiet.tail → Readable (some [75, 101, 121]) sent := by
    intro sent inside
    obtain rfl : sent = .sealed syncText := by simpa [quiet] using inside
    exact EcspFrames.readable_sealed (by decide) (by decide) EcspFrames.rc4_begins (by decide)
  have plain : Readable (none : Option Bytes) (.plain ackText) := (by decide : EcspFrames.Plausible ackText.length)
  have understood : Understood digests loads [75, 101, 121] provedChannel quiet := by
    refine ⟨?_, ?_⟩
    · intro sent same
      cases same
      exact plain
    · intro next log on
      cases on
      exact understood_keyed rfl sealed_
  exact converse_stream understood (EcspFrames.symbols_events _ quiet)

end EllaFi.AdoptChannel
