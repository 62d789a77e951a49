import EllaFi.Recent
import EllaFi.Runs
import Mathlib.Logic.Function.Basic

/-!
The controller's credentials, which all tasks share behind one mutex. A task that wants
them takes the mutex, and logs in while it holds it when the session that is kept is too
old; a task that finds the session refused marks it stale. A step is what one task does
between two points where another can run. What a task is given comes from one answer of
the controller that nothing has called stale since (`handed_out`), and the controller is
asked again only where the last answer is no good any more (`asked_again`).
-/
namespace EllaFi.Credentials
open EllaFi.Recent
open EllaFi.Runs (run run_history run_keeps watch watch_some)

/-! ## Data -/

structure OmadaCredentials where
  csrfToken : String
  /-- The value of the cookie. -/
  sessionId : String
  /-- 0 is none. -/
  loginMs : UInt32
deriving DecidableEq, Repr

def noCredentials : OmadaCredentials := { csrfToken := "", sessionId := "", loginMs := 0 }

def controllerSessionMaxAgeMillis : UInt32 := 3600000

structure Cookie where
  name : String
  value : String
deriving DecidableEq, Repr

/-- The members of an answer that are read. -/
structure LoginDoc where
  errorCode : Int
  /-- None where they are no strings. -/
  msg : Option String
  token : Option String
deriving DecidableEq, Repr

/-- What comes of the POST: the text of its error, or a document, if it parses, and the
    cookies. -/
inductive LoginReply where
  | failed (errorToString : String)
  | answered (doc : Option LoginDoc) (jar : List Cookie)
deriving DecidableEq, Repr

/-- The value of the first cookie of the session; empty where there is none. -/
def sessionCookie (jar : List Cookie) : String :=
  ((jar.find? (·.name = "TPOMADA_SESSIONID")).map (·.value)).getD ""

def refusal (doc : LoginDoc) : String := "Login: " ++ doc.msg.getD ("errorCode " ++ toString doc.errorCode)

/-- What is kept after the answer, and the error. -/
def keepReply (reply : LoginReply) (millis : UInt32) : OmadaCredentials × Option String :=
  match reply with
  | .failed errorToString => (noCredentials, some ("Login: " ++ errorToString))
  | .answered none _ => (noCredentials, some "Login: JSON parse error")
  | .answered (some doc) jar =>
    if doc.errorCode ≠ 0 then (noCredentials, some (refusal doc))
    else
      match doc.token with
      | none => (noCredentials, some "Login: response missing token")
      | some token =>
        -- the token is kept although the cookie is missing
        if sessionCookie jar = "" then
          ({ noCredentials with csrfToken := token }, some "Login: no TPOMADA_SESSIONID cookie")
        else ({ csrfToken := token, sessionId := sessionCookie jar, loginMs := millis }, none)

/-- The session is not stale. -/
def Usable (creds : OmadaCredentials) (millis : UInt32) : Prop :=
  0 < creds.loginMs ∧ millis - creds.loginMs < controllerSessionMaxAgeMillis

instance (creds : OmadaCredentials) (millis : UInt32) : Decidable (Usable creds millis) :=
  inferInstanceAs (Decidable (_ ∧ _))

/-! ## Steps -/

inductive Call where
  | getCredentials
  | invalidateCredentials
  | getOmadaSessionAgeMs
deriving DecidableEq, Repr

/-- Where a task stands. -/
inductive Task where
  | outside
  | taking (call : Call)
  | holding (call : Call)
  /-- `CREDS` was cleared, and the answer of the login is not there yet. -/
  | loggingIn
deriving DecidableEq, Repr

def Task.inside : Task → Bool
  | .holding _ | .loggingIn => true
  | _ => false

structure Store where
  creds : OmadaCredentials
  /-- `CREDS_MUTEX` is taken. -/
  taken : Bool
  tasks : Nat → Task

def booted : Store := { creds := noCredentials, taken := false, tasks := fun _ => .outside }

inductive Action where
  | call (task : Nat) (call : Call)
  | take (task : Nat)
  /-- `getCredentials` looks at the age of the session. -/
  | check (task : Nat) (millis : UInt32)
  | reply (task : Nat) (reply : LoginReply) (millis : UInt32)
  | invalidate (task : Nat)
  | readAge (task : Nat) (millis : UInt32)

def Store.move (s : Store) (task : Nat) (place : Task) : Store := { s with tasks := Function.update s.tasks task place }

/-- The task gives the mutex back. -/
def Store.give (s : Store) (task : Nat) : Store := { s.move task .outside with taken := false }

def step (s : Store) : Action → Option Store
  | .call task call => if s.tasks task = .outside then some (s.move task (.taking call)) else none
  | .take task =>
    match s.tasks task with
    | .taking call => if s.taken then none else some { s.move task (.holding call) with taken := true }
    | _ => none
  | .check task millis =>
    if s.tasks task = .holding .getCredentials then
      if Usable s.creds millis then some (s.give task)
      else some { s.move task .loggingIn with creds := noCredentials }
    else none
  | .reply task reply millis =>
    if s.tasks task = .loggingIn then some { s.give task with creds := (keepReply reply millis).1 } else none
  | .invalidate task =>
    if s.tasks task = .holding .invalidateCredentials then
      some { s.give task with creds := { s.creds with loginMs := 0 } }
    else none
  | .readAge task _ => if s.tasks task = .holding .getOmadaSessionAgeMs then some (s.give task) else none

/-! ## What is seen -/

inductive Event where
  /-- The snapshot that a call of `getCredentials` returns, and the time that it read last. -/
  | returned (task : Nat) (snap : OmadaCredentials) (millis : UInt32)
  /-- A login is sent. -/
  | asked (task : Nat) (millis : UInt32)
  | answered (task : Nat) (reply : LoginReply) (millis : UInt32)
  | invalidated (task : Nat)
  | aged (task : Nat) (age : UInt32)
deriving DecidableEq

/-- A login that failed returns no credentials at all. -/
def returnedFrom (kept : OmadaCredentials × Option String) : OmadaCredentials :=
  match kept.2 with
  | none => kept.1
  | some _ => noCredentials

def seen (s : Store) : Action → List Event
  | .check task millis => if Usable s.creds millis then [.returned task s.creds millis] else [.asked task millis]
  | .reply task reply millis =>
    [.answered task reply millis, .returned task (returnedFrom (keepReply reply millis)) millis]
  | .invalidate task => [.invalidated task]
  | .readAge task millis => [.aged task (if 0 < s.creds.loginMs then millis - s.creds.loginMs else 0)]
  | _ => []

/-- The machine with the log of its events. -/
def logged : Store × List Event → Action → Option (Store × List Event) :=
  watch step fun s a log => log ++ seen s a

/-- The event decides which credentials there are. -/
def Event.decides : Event → Bool
  | .asked .. | .answered .. | .invalidated _ => true
  | _ => false

/-! ## What a step can do -/

/-- One case for each way through the code, with what is seen of it. -/
inductive Step : Store → List Event → Store → Prop
  | called {s task} (call : Call) (free : s.tasks task = .outside) : Step s [] (s.move task (.taking call))
  | took {s task call} (waits : s.tasks task = .taking call) (free : s.taken = false) :
      Step s [] { s.move task (.holding call) with taken := true }
  | handed {s task millis} (holds : s.tasks task = .holding .getCredentials) (usable : Usable s.creds millis) :
      Step s [.returned task s.creds millis] (s.give task)
  | asked {s task millis} (holds : s.tasks task = .holding .getCredentials) (stale : ¬ Usable s.creds millis) :
      Step s [.asked task millis] { s.move task .loggingIn with creds := noCredentials }
  | answered {s task} (reply millis) (asking : s.tasks task = .loggingIn) :
      Step s [.answered task reply millis, .returned task (returnedFrom (keepReply reply millis)) millis]
        { s.give task with creds := (keepReply reply millis).1 }
  | invalidated {s task} (holds : s.tasks task = .holding .invalidateCredentials) :
      Step s [.invalidated task] { s.give task with creds := { s.creds with loginMs := 0 } }
  | aged {s task} (age : UInt32) (holds : s.tasks task = .holding .getOmadaSessionAgeMs) :
      Step s [.aged task age] (s.give task)

theorem step_cases {s next : Store} {a : Action} (taken : step s a = some next) : Step s (seen s a) next := by
  cases a with
  | call task call =>
    simp only [step, Option.ite_none_right_eq_some, Option.some.injEq] at taken
    obtain ⟨free, rfl⟩ := taken
    exact .called call free
  | take task =>
    simp only [step] at taken
    split at taken
    · next call waits =>
      split at taken
      · cases taken
      · next free =>
        cases taken
        exact .took waits (by simpa using free)
    · cases taken
  | check task millis =>
    simp only [step, Option.ite_none_right_eq_some] at taken
    obtain ⟨holds, taken⟩ := taken
    rw [seen]
    split at taken
    · next usable =>
      cases taken
      rw [if_pos usable]
      exact .handed holds usable
    · next stale =>
      cases taken
      rw [if_neg stale]
      exact .asked holds stale
  | reply task reply millis =>
    simp only [step, Option.ite_none_right_eq_some, Option.some.injEq] at taken
    obtain ⟨asking, rfl⟩ := taken
    exact .answered reply millis asking
  | invalidate task =>
    simp only [step, Option.ite_none_right_eq_some, Option.some.injEq] at taken
    obtain ⟨holds, rfl⟩ := taken
    exact .invalidated holds
  | readAge task millis =>
    simp only [step, Option.ite_none_right_eq_some, Option.some.injEq] at taken
    obtain ⟨holds, rfl⟩ := taken
    exact .aged _ holds

/-! ## The mutex -/

/-- The one task inside has taken the mutex. -/
structure Exclusive (s : Store) : Prop where
  taken : ∀ {task}, (s.tasks task).inside → s.taken = true
  one : ∀ {task other}, (s.tasks task).inside → (s.tasks other).inside → task = other

theorem exclusive_move {s : Store} (exclusive : Exclusive s) {task : Nat} {place : Task}
    (stays : place.inside → (s.tasks task).inside) : Exclusive (s.move task place) := by
  have before : ∀ {other}, ((s.move task place).tasks other).inside → (s.tasks other).inside := by
    intro other inside
    by_cases own : other = task
    · subst own
      exact stays (by simpa [Store.move] using inside)
    · simpa [Store.move, Function.update_of_ne own] using inside
  exact ⟨fun inside => exclusive.taken (before inside), fun inside too => exclusive.one (before inside) (before too)⟩

/-- The task that gives the mutex back was the one inside. -/
theorem exclusive_give {s : Store} (exclusive : Exclusive s) {task : Nat} (inside : (s.tasks task).inside) :
    Exclusive (s.give task) := by
  have nobody : ∀ {other}, ¬ ((s.give task).tasks other).inside := by
    intro other too
    by_cases own : other = task
    · subst own
      simp [Store.give, Store.move, Task.inside] at too
    · exact own (exclusive.one (by simpa [Store.give, Store.move, Function.update_of_ne own] using too) inside)
  exact ⟨fun too => absurd too nobody, fun too => absurd too nobody⟩

theorem exclusive_step {s next : Store} {events : List Event} (exclusive : Exclusive s) (taken : Step s events next) :
    Exclusive next := by
  cases taken with
  | called call free => exact exclusive_move exclusive (by simp [Task.inside])
  | @took task call waits free =>
    have alone : ∀ {other}, ((s.move task (.holding call)).tasks other).inside → other = task := by
      intro other inside
      by_contra own
      have before : (s.tasks other).inside := by simpa [Store.move, Function.update_of_ne own] using inside
      have := exclusive.taken before
      simp [free] at this
    exact ⟨fun _ => rfl, fun inside too => (alone inside).trans (alone too).symm⟩
  | handed holds usable => exact exclusive_give exclusive (by simp [holds, Task.inside])
  | @asked task _ holds stale =>
    have moved : Exclusive (s.move task .loggingIn) := exclusive_move exclusive fun _ => by rw [holds]; rfl
    exact ⟨moved.taken, moved.one⟩
  | @answered task reply millis asking =>
    have given : Exclusive (s.give task) := exclusive_give exclusive (by rw [asking]; rfl)
    exact ⟨given.taken, given.one⟩
  | @invalidated task holds =>
    have given : Exclusive (s.give task) := exclusive_give exclusive (by rw [holds]; rfl)
    exact ⟨given.taken, given.one⟩
  | aged age holds => exact exclusive_give exclusive (by simp [holds, Task.inside])

/-! ## What was handed out -/

/-- The credentials are those of an answer that accepts the login at that time. -/
def Grants (reply : LoginReply) (millis : UInt32) (creds : OmadaCredentials) : Prop :=
  ∃ doc jar token, reply = .answered (some doc) jar ∧ doc.errorCode = 0 ∧ doc.token = some token ∧
    sessionCookie jar ≠ "" ∧ creds = { csrfToken := token, sessionId := sessionCookie jar, loginMs := millis }

theorem keepReply_cases (reply : LoginReply) (millis : UInt32) :
    ((keepReply reply millis).2 = none ∧ Grants reply millis (keepReply reply millis).1) ∨
      ((keepReply reply millis).2 ≠ none ∧ (keepReply reply millis).1.loginMs = 0) := by
  unfold keepReply
  split
  · exact .inr ⟨nofun, rfl⟩
  · exact .inr ⟨nofun, rfl⟩
  · next doc jar =>
    split
    · exact .inr ⟨nofun, rfl⟩
    · next accepted =>
      split
      · exact .inr ⟨nofun, rfl⟩
      · next token given =>
        split
        · exact .inr ⟨nofun, rfl⟩
        · next cookie => exact .inl ⟨rfl, doc, jar, token, rfl, not_not.mp accepted, given, cookie, rfl⟩

theorem grants_of_login {reply : LoginReply} {millis : UInt32} (some_ : 0 < (keepReply reply millis).1.loginMs) :
    Grants reply millis (keepReply reply millis).1 := by
  rcases keepReply_cases reply millis with ⟨-, grants⟩ | ⟨-, none_⟩
  · exact grants
  · rw [none_] at some_
    exact absurd some_ (by decide)

/-- The credentials come from an answer, are not older than the controller keeps a
    session, and nothing has been asked, answered or called stale since. -/
def HandedOut (before : List Event) (snap : OmadaCredentials) (now : UInt32) : Prop :=
  now - snap.loginMs < controllerSessionMaxAgeMillis ∧
    ∃ earlier task reply later, before = earlier ++ .answered task reply snap.loginMs :: later ∧
      Grants reply snap.loginMs snap ∧ ∀ event ∈ later, event.decides = false

/-- The last that decided is no reason not to ask again. -/
def Justified (now : UInt32) : Option Event → Prop
  | none | some (.invalidated _) => True
  | some (.answered _ reply millis) => ¬ Usable (keepReply reply millis).1 now
  | _ => False

def Fair (before : List Event) : Event → Prop
  | .returned _ snap now => 0 < snap.loginMs → HandedOut before snap now
  | .asked _ now => Justified now (lastWhere Event.decides before)
  | _ => True

/-- What is kept, by the last event that decides. -/
def Kept (s : Store) : Option Event → Prop
  | some (.answered _ reply millis) => s.creds = (keepReply reply millis).1
  | some (.asked task _) => s.creds.loginMs = 0 ∧ s.tasks task = .loggingIn
  | _ => s.creds.loginMs = 0

structure Sound (x : Store × List Event) : Prop where
  exclusive : Exclusive x.1
  kept : Kept x.1 (lastWhere Event.decides x.2)
  fair : Each Fair x.2

theorem kept_frame {s next : Store} {last : Option Event} (kept : Kept s last) (creds : next.creds = s.creds)
    (asking : ∀ task, s.tasks task = .loggingIn → next.tasks task = .loggingIn) : Kept next last := by
  unfold Kept at kept ⊢
  split <;> simp only at kept
  · rw [creds, kept]
  · exact ⟨creds ▸ kept.1, asking _ kept.2⟩
  · rw [creds, kept]

/-- A task that stood elsewhere leaves those that log in where they are. -/
theorem asking_move {s : Store} {task : Nat} {place : Task} (other : s.tasks task ≠ .loggingIn) (asker : Nat)
    (asking : s.tasks asker = .loggingIn) : (s.move task place).tasks asker = .loggingIn := by
  have own : asker ≠ task := fun same => other (same ▸ asking)
  exact (Function.update_of_ne own _ _).trans asking

theorem usable_handed {s : Store} {log : List Event} {now : UInt32} (kept : Kept s (lastWhere Event.decides log))
    (usable : Usable s.creds now) : HandedOut log s.creds now := by
  obtain ⟨some_, young⟩ := usable
  have blank : s.creds.loginMs ≠ 0 := fun zero => absurd (zero ▸ some_) (by decide)
  refine ⟨young, ?_⟩
  cases last : lastWhere Event.decides log with
  | none => exact absurd (by simpa [last, Kept] using kept) blank
  | some event =>
    rw [last] at kept
    cases event with
    | answered task reply millis =>
      obtain ⟨-, earlier, split⟩ := lastWhere_eq_some.mp last
      have own : s.creds = (keepReply reply millis).1 := kept
      have grants : Grants reply millis s.creds := own ▸ grants_of_login (own ▸ some_)
      have time : s.creds.loginMs = millis := by
        obtain ⟨doc, jar, token, -, -, -, -, same⟩ := grants
        rw [same]
      exact ⟨earlier, task, reply, _, time ▸ split, time.symm ▸ grants,
        fun event inside => by simpa using not_of_mem_since inside⟩
    | asked task millis => exact absurd kept.1 blank
    | invalidated task => exact absurd kept blank
    | returned task snap millis => exact absurd kept blank
    | aged task age => exact absurd kept blank

theorem stale_justified {s : Store} {log : List Event} {task : Nat} {now : UInt32} (exclusive : Exclusive s)
    (kept : Kept s (lastWhere Event.decides log)) (holds : s.tasks task = .holding .getCredentials)
    (stale : ¬ Usable s.creds now) : Justified now (lastWhere Event.decides log) := by
  cases last : lastWhere Event.decides log with
  | none => trivial
  | some event =>
    rw [last] at kept
    have decides := (lastWhere_eq_some.mp last).1
    cases event with
    | answered other reply millis =>
      have own : s.creds = (keepReply reply millis).1 := kept
      exact fun usable => stale (own.symm ▸ usable)
    | asked other millis =>
      -- the task that asked is still inside
      have same : other = task := exclusive.one (by rw [kept.2]; rfl) (by rw [holds]; rfl)
      have asking := kept.2
      rw [same, holds] at asking
      cases asking
    | invalidated other => trivial
    | returned other snap millis => cases decides
    | aged other age => cases decides

theorem answer_handed {log : List Event} {task : Nat} {reply : LoginReply} {millis : UInt32}
    (some_ : 0 < (returnedFrom (keepReply reply millis)).loginMs) :
    HandedOut (log ++ [.answered task reply millis]) (returnedFrom (keepReply reply millis)) millis := by
  rcases keepReply_cases reply millis with ⟨accepted, grants⟩ | ⟨refused, -⟩
  · have own : returnedFrom (keepReply reply millis) = (keepReply reply millis).1 := by rw [returnedFrom, accepted]
    rw [own]
    have time : (keepReply reply millis).1.loginMs = millis := by
      obtain ⟨doc, jar, token, -, -, -, -, same⟩ := grants
      rw [same]
    rw [HandedOut, time]
    exact ⟨by rw [UInt32.sub_self]; decide, log, task, reply, [], rfl, grants, List.forall_mem_nil _⟩
  · obtain ⟨error, failed⟩ := Option.ne_none_iff_exists'.mp refused
    have nothing : returnedFrom (keepReply reply millis) = noCredentials := by rw [returnedFrom, failed]
    rw [nothing] at some_
    exact absurd some_ (by decide)

theorem sound_step {s next : Store} {log events : List Event} (sound : Sound (s, log)) (taken : Step s events next) :
    Sound (next, log ++ events) := by
  obtain ⟨exclusive, kept, fair⟩ := sound
  refine ⟨exclusive_step exclusive taken, ?_, ?_⟩
  · cases taken with
    | called call free =>
      rw [List.append_nil]
      exact kept_frame kept rfl (asking_move (by rw [free]; nofun))
    | took waits free =>
      rw [List.append_nil]
      exact kept_frame kept rfl (asking_move (by rw [waits]; nofun))
    | handed holds usable =>
      rw [lastWhere_other Bool.false_ne_true]
      exact kept_frame kept rfl (asking_move (by rw [holds]; nofun))
    | asked holds stale =>
      rw [lastWhere_new rfl]
      exact ⟨rfl, by simp [Store.move]⟩
    | answered reply millis asking =>
      rw [← List.singleton_append, ← List.append_assoc, lastWhere_other Bool.false_ne_true, lastWhere_new rfl]
      exact rfl
    | invalidated holds =>
      rw [lastWhere_new rfl]
      exact rfl
    | aged age holds =>
      rw [lastWhere_other Bool.false_ne_true]
      exact kept_frame kept rfl (asking_move (by rw [holds]; nofun))
  · cases taken with
    | called call free => exact (List.append_nil log).symm ▸ fair
    | took waits free => exact (List.append_nil log).symm ▸ fair
    | handed holds usable => exact each_snoc.mpr ⟨fair, fun _ => usable_handed kept usable⟩
    | asked holds stale => exact each_snoc.mpr ⟨fair, stale_justified exclusive kept holds stale⟩
    | answered reply millis asking =>
      rw [← List.singleton_append, ← List.append_assoc]
      exact each_snoc.mpr ⟨each_snoc.mpr ⟨fair, trivial⟩, answer_handed⟩
    | invalidated holds => exact each_snoc.mpr ⟨fair, trivial⟩
    | aged age holds => exact each_snoc.mpr ⟨fair, trivial⟩

theorem exclusive_booted : Exclusive booted := by
  have nobody : ∀ {task}, ¬ (booted.tasks task).inside := Bool.false_ne_true
  exact ⟨fun inside => absurd inside nobody, fun inside => absurd inside nobody⟩

theorem sound_run {actions : List Action} {last : Store × List Event}
    (ran : run logged (booted, []) actions = some last) : Sound last := by
  have first : Sound (booted, []) := { exclusive := exclusive_booted, kept := rfl, fair := each_nil }
  refine run_keeps (fun x a next sound taken => ?_) first ran
  obtain ⟨state, log⟩ := next
  obtain ⟨moved, noted⟩ := watch_some.mp taken
  have grown : log = x.2 ++ seen x.1 a := noted
  rw [grown]
  exact sound_step sound (step_cases moved)

/-- Whatever the tasks do, and in whichever order: credentials that a task is given are
    those of one answer of the controller, at most an hour old, and since that answer no
    task has asked for others or has called the session stale. -/
theorem handed_out {actions : List Action} {last : Store × List Event}
    (ran : run logged (booted, []) actions = some last) {before after : List Event} {task : Nat}
    {snap : OmadaCredentials} {now : UInt32} (split : last.2 = before ++ .returned task snap now :: after)
    (login : 0 < snap.loginMs) : HandedOut before snap now :=
  (sound_run ran).fair before (.returned task snap now) after split login

def accepted : LoginReply :=
  .answered (some { errorCode := 0, msg := none, token := some "token" })
    [{ name := "TPOMADA_SESSIONID", value := "session" }]

def shared : OmadaCredentials := { csrfToken := "token", sessionId := "session", loginMs := 5200 }

/-- Two tasks want credentials at once, and the session of the first serves both; then it
    is refused. -/
def sharing : List Action :=
  [.call 0 .getCredentials, .call 1 .getCredentials, .take 0, .check 0 5000, .reply 0 accepted 5200, .take 1,
    .check 1 5300, .call 0 .invalidateCredentials, .take 0, .call 1 .getCredentials, .invalidate 0, .take 1,
    .check 1 5400]

def sharingSeen : List Event :=
  [.asked 0 5000, .answered 0 accepted 5200, .returned 0 shared 5200, .returned 1 shared 5300, .invalidated 0,
    .asked 1 5400]

theorem sharing_seen : ∃ last, run logged (booted, []) sharing = some last ∧ last.2 = sharingSeen := by
  exact ⟨_, rfl, rfl⟩

theorem handed_out_shared :
    HandedOut [.asked 0 5000, .answered 0 accepted 5200, .returned 0 shared 5200] shared 5300 := by
  obtain ⟨last, ran, log⟩ := sharing_seen
  have split : last.2 = [.asked 0 5000, .answered 0 accepted 5200, .returned 0 shared 5200] ++
      .returned 1 shared 5300 :: [.invalidated 0, .asked 1 5400] := log
  exact handed_out ran split (by decide)

/-- The controller is asked only where nothing decided before, or where the session was
    called stale or its answer is no good at this time; in particular the answer to the
    login before is always there already. -/
theorem asked_again {actions : List Action} {last : Store × List Event}
    (ran : run logged (booted, []) actions = some last) {before after : List Event} {task : Nat} {now : UInt32}
    (split : last.2 = before ++ .asked task now :: after) : Justified now (lastWhere Event.decides before) :=
  (sound_run ran).fair before (.asked task now) after split

theorem asked_again_refused :
    Justified 5400 (lastWhere Event.decides
      [.asked 0 5000, .answered 0 accepted 5200, .returned 0 shared 5200, .returned 1 shared 5300, .invalidated 0]) := by
  obtain ⟨last, ran, log⟩ := sharing_seen
  exact asked_again ran (log.trans (List.append_nil _).symm)

end EllaFi.Credentials
