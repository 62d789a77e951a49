import EllaFi.LittleEndian
import EllaFi.Pieces
import EllaFi.Rc4

/-!
The frames of the device plane. A frame is four bytes for the length, the highest first, and
a text; the controller encrypts both once it has the device's key, and the device must tell
from the four bytes whether it did. Wherever the stream is cut, the device reads the frames
that were sent, one by one, as long as it does not lose its patience within one and no
encrypted length looks like a plain one; none does if the key's stream does not begin with 0
(`readAll_stream`).
-/
namespace EllaFi.EcspFrames
open EllaFi.ArcFour (crypt crypt_crypt)
open EllaFi.LittleEndian (split combine combine_append combine_split length_split)
open EllaFi.Pieces
open EllaFi.Rc4 (masked masked_masked keyed)
open EllaFi.Rc4.Emulator (rc4 rc4_crypt)

abbrev Bytes : Type := List UInt8

/-! ## Reading -/

def pack (n : Nat) : Bytes := (split 4 n).reverse

def unpack (bytes : Bytes) : Nat := combine bytes.reverse

/-- What can come between bytes: nothing for too long, or an error. -/
inductive Signal where
  | timeout
  | failure

abbrev Socket : Type := List (Piece UInt8 Signal)

/-- What a frame is taken for. -/
inductive Heard (Doc : Type) where
  | doc (d : Doc)
  | raw (bytes : Bytes)
  | rawRc4 (bytes : Bytes)
  | badLength (n : Nat)
deriving DecidableEq

inductive Read (Doc : Type) where
  | heard (frame : Heard Doc)
  | closed
  | timeout
  | failed
deriving DecidableEq

/-- A length that a frame can have. -/
def Plausible (n : Nat) : Prop := 0 < n ∧ n < 2000000

instance (n : Nat) : Decidable (Plausible n) := inferInstanceAs (Decidable (_ ∧ _))

section
variable {Doc : Type}

/-- What is done with the next bytes, if they come; the bytes before an interruption are
    lost. -/
def received (need : Nat) (sock : Socket) (use : Bytes → Socket → Read Doc × Socket) : Read Doc × Socket :=
  match take need [] sock with
  | (.full data, sock) => use data sock
  | (.ended, sock) => (.closed, sock)
  | (.broken .timeout, sock) => (.timeout, sock)
  | (.broken .failure, sock) => (.failed, sock)

variable (loads : Bytes → Option Doc)

/-- A body that came in a plain frame; with a key it is tried as an encrypted one, too. -/
def plainBody (key : Option Bytes) (body : Bytes) : Heard Doc :=
  match loads body with
  | some d => .doc d
  | none =>
    match key.bind fun key => (rc4 body key).bind loads with
    | some d => .doc d
    | none => .raw (body.take 200)

def sealedBody (text : Bytes) : Heard Doc :=
  match loads text with
  | some d => .doc d
  | none => .rawRc4 (text.take 200)

def readFrame (key : Option Bytes) (sock : Socket) : Read Doc × Socket :=
  received 4 sock fun lb sock =>
    if Plausible (unpack lb) then
      received (unpack lb) sock fun body sock => (.heard (plainBody loads key body), sock)
    else
      match key with
      | none => (.heard (.badLength (unpack lb)), sock)
      | some key =>
        match rc4 lb key with
        | none => (.failed, sock)
        | some head =>
          if Plausible (unpack head - 4) then
            received (unpack head - 4) sock fun body sock =>
              match rc4 body key with
              | none => (.failed, sock)
              | some text => (.heard (sealedBody loads text), sock)
          else (.heard (.badLength (unpack head)), sock)

end

/-! ## Sending -/

/-- The texts, and whether they are encrypted. -/
inductive Sent where
  | plain (body : Bytes)
  | sealed (body : Bytes)
deriving DecidableEq

def frame (body : Bytes) : Bytes := pack body.length ++ body

/-- The length is that of the whole frame. -/
def rc4Frame (key body : Bytes) : Option Bytes := do
  let head ← rc4 (pack (4 + body.length)) key
  let text ← rc4 body key
  return head ++ text

def Sent.wire (key : Option Bytes) : Sent → Bytes
  | .plain body => frame body
  | .sealed body => (key.bind fun key => rc4Frame key body).getD []

/-- What happens on the connection. -/
inductive Event where
  | frame (sent : Sent)
  | pause

def Event.symbols (key : Option Bytes) : Event → List (UInt8 ⊕ Signal)
  | .frame sent => (sent.wire key).map .inl
  | .pause => [.inr .timeout]

/-- The frame is of a length that is read, and an encrypted length is not one. -/
def Readable (key : Option Bytes) : Sent → Prop
  | .plain body => Plausible body.length
  | .sealed body => Plausible body.length ∧
      ∃ own ∈ key, own ≠ [] ∧ ∃ head ∈ rc4 (pack (4 + body.length)) own, ¬ Plausible (unpack head)

/-! ## One frame -/

@[simp] theorem length_pack (n : Nat) : (pack n).length = 4 := by
  rw [pack, List.length_reverse, length_split]

theorem unpack_pack {n : Nat} (fits : n < 256 ^ 4) : unpack (pack n) = n := by
  rw [unpack, pack, List.reverse_reverse, combine_split fits]

theorem unpack_pack_plausible {n : Nat} (credible : Plausible (n - 4)) : unpack (pack n) = n := by
  have bound : n - 4 < 2000000 := credible.2
  exact unpack_pack (by omega)

section
variable {Doc : Type} {loads : Bytes → Option Doc} {key : Option Bytes} {sock : Socket} {rest : List (UInt8 ⊕ Signal)}

theorem received_full (use : Bytes → Socket → Read Doc × Socket) {data : Bytes} (there : symbols sock = data.map .inl ++ rest) :
    ∃ left, received data.length sock use = use data left ∧ symbols left = rest := by
  obtain ⟨left, took, remains⟩ := take_full [] there
  exact ⟨left, by rw [received, took, List.nil_append], remains⟩

/-- With one key what is encrypted twice is what it was. -/
theorem rc4_twice {own : Bytes} (nonempty : own ≠ []) (input : Bytes) :
    ∃ output, rc4 input own = some output ∧ output.length = input.length ∧ rc4 output own = some input := by
  refine ⟨crypt masked (keyed own) input, rc4_crypt nonempty, ArcFour.length_crypt _ _ _, ?_⟩
  rw [rc4_crypt nonempty, crypt_crypt _ _ masked_masked]

variable (loads key) in
/-- What a frame is to be taken for. -/
def Sent.heard : Sent → Heard Doc
  | .plain body => plainBody loads key body
  | .sealed body => sealedBody loads body

variable (loads) in
theorem readFrame_sent {sent : Sent} (readable : Readable key sent) (there : symbols sock = (sent.wire key).map .inl ++ rest) :
    ∃ left, readFrame loads key sock = (.heard (sent.heard loads key), left) ∧ symbols left = rest := by
  cases sent with
  | plain body =>
    have credible : Plausible body.length := readable
    have bound : body.length < 2000000 := credible.2
    have length : unpack (pack body.length) = body.length := unpack_pack (by omega)
    rw [Sent.wire, frame, List.map_append, List.append_assoc] at there
    obtain ⟨behind, head, after⟩ := received_full _ there
    rw [length_pack] at head
    obtain ⟨left, text, remains⟩ := received_full (fun body sock => (.heard (plainBody loads key body), sock)) after
    refine ⟨left, ?_, remains⟩
    rw [readFrame, head, length, if_pos credible, text]
    rfl
  | sealed body =>
    obtain ⟨credible, own, held, nonempty, head, found, hidden⟩ := readable
    obtain rfl : key = some own := held
    have found : rc4 (pack (4 + body.length)) own = some head := found
    obtain ⟨cipher, covered, headLength, uncovered⟩ := rc4_twice nonempty (pack (4 + body.length))
    obtain rfl := Option.some.inj (found.symm.trans covered)
    obtain ⟨text, sealed_, textLength, opened⟩ := rc4_twice nonempty body
    have wire : Sent.wire (some own) (.sealed body) = head ++ text := by
      simp [Sent.wire, rc4Frame, found, sealed_]
    have less : 4 + body.length - 4 = body.length := Nat.add_sub_cancel_left 4 body.length
    have length : unpack (pack (4 + body.length)) = 4 + body.length := unpack_pack_plausible (by rwa [less])
    rw [wire, List.map_append, List.append_assoc] at there
    obtain ⟨behind, began, after⟩ := received_full _ there
    rw [headLength, length_pack] at began
    obtain ⟨left, ended, remains⟩ := received_full (fun body sock =>
      match rc4 body own with
      | none => (.failed, sock)
      | some text => (.heard (sealedBody loads text), sock)) after
    rw [textLength] at ended
    refine ⟨left, ?_, remains⟩
    rw [readFrame, began, if_neg hidden]
    simp only [uncovered, length, less, if_pos credible, ended, opened]
    rfl

variable (loads key) in
theorem readFrame_pause (there : symbols sock = .inr .timeout :: rest) :
    ∃ left, readFrame loads key sock = (.timeout, left) ∧ symbols left = rest := by
  obtain ⟨left, took, remains⟩ := take_signal [] (Nat.succ_pos 3) there
  exact ⟨left, by rw [readFrame, received, took], remains⟩

@[simp] theorem readFrame_nil : readFrame loads key [] = (.closed, []) := rfl

/-! ## Keys -/

def Sent.body : Sent → Bytes
  | .plain body | .sealed body => body

/-- There is a key, and its stream does not begin with 0. -/
def Telling (key : Option Bytes) : Prop := ∃ own ∈ key, own ≠ [] ∧ ∃ first ∈ rc4 [0] own, first ≠ [0]

/-- A length that fits has nothing in its highest byte. -/
theorem pack_low {n : Nat} (low : n < 256 ^ 3) : ∃ rest, pack n = 0 :: rest := by
  have highest : UInt8.ofNat (n / 256 / 256 / 256) = 0 := by
    have none_ : n / 256 / 256 / 256 = 0 := by omega
    rw [none_]
    rfl
  exact ⟨_, by simp [pack, split, highest]; rfl⟩

/-- Whatever is encrypted first, a keystream that does not begin with 0 hides no length. -/
theorem readable_sealed {own body : Bytes} (nonempty : own ≠ []) (credible : Plausible body.length) {first : UInt8}
    (begins : rc4 [0] own = some [first]) (other : first ≠ 0) : Readable (some own) (.sealed body) := by
  have bound : body.length < 2000000 := credible.2
  obtain ⟨rest, low⟩ : ∃ rest, pack (4 + body.length) = 0 :: rest := pack_low (by omega)
  have length : rest.length = 3 := by
    have all := length_pack (4 + body.length)
    rw [low, List.length_cons] at all
    omega
  obtain ⟨more, whole⟩ : ∃ more, crypt masked (keyed own) (0 :: rest) = first :: more := by
    rw [rc4_crypt nonempty, crypt, List.mapIdx_cons] at begins
    rw [crypt, List.mapIdx_cons]
    exact ⟨_, congrArg (· :: _) (List.cons.inj (Option.some.inj begins)).1⟩
  refine ⟨credible, own, rfl, nonempty, first :: more, by rw [low, rc4_crypt nonempty, whole]; rfl, ?_⟩
  have count : more.length = 3 := by
    have same := congrArg List.length whole
    rw [ArcFour.length_crypt, List.length_cons, List.length_cons, length] at same
    omega
  have positive : 0 < first.toNat := by
    refine Nat.pos_of_ne_zero fun zero => other ?_
    exact UInt8.toNat_inj.mp zero
  rintro ⟨-, small⟩
  rw [unpack, List.reverse_cons, combine_append, List.length_reverse, count] at small
  have one : combine [first] = first.toNat := by simp [combine]
  rw [one] at small
  omega

theorem readable_telling (telling : Telling key) {sent : Sent} (credible : Plausible sent.body.length) : Readable key sent := by
  obtain ⟨own, held, nonempty, output, begins, other⟩ := telling
  obtain rfl : key = some own := held
  cases sent with
  | plain body => exact credible
  | sealed body =>
    obtain ⟨covered, found, length, -⟩ := rc4_twice nonempty [0]
    obtain rfl := Option.some.inj (begins.symm.trans found)
    obtain ⟨first, rfl⟩ := List.length_eq_one_iff.mp length
    exact readable_sealed nonempty credible found fun zero => other (by rw [zero])

/-! ## The whole stream -/

theorem received_le {need : Nat} {use : Bytes → Socket → Read Doc × Socket} (less : ∀ data left, (symbols (use data left).2).length ≤ (symbols left).length) :
    (symbols (received need sock use).2).length ≤ (symbols (take need [] sock).2).length := by
  unfold received
  split
  · next data left took =>
    rw [took]
    exact less data left
  all_goals next left took => rw [took]

theorem readFrame_smaller (some : sock ≠ []) : (symbols (readFrame loads key sock).2).length < (symbols sock).length := by
  refine Nat.lt_of_le_of_lt (received_le fun lb left => ?_) (take_smaller (by omega) some)
  have later : ∀ {need : Nat} {use : Bytes → Socket → Read Doc × Socket},
      (∀ data left, (symbols (use data left).2).length ≤ (symbols left).length) →
        (symbols (received need left use).2).length ≤ (symbols left).length :=
    fun less => Nat.le_trans (received_le less) (take_le _ _ _)
  split
  · exact later fun _ _ => Nat.le_refl _
  · split
    · exact Nat.le_refl _
    · split
      · exact Nat.le_refl _
      · split
        · refine later fun body left => ?_
          split
          · exact Nat.le_refl _
          · exact Nat.le_refl _
        · exact Nat.le_refl _

variable (loads key) in
/-- Frame by frame, as long as the connection holds. -/
def readAll (sock : Socket) : List (Read Doc) :=
  if _ended : sock = [] then [.closed]
  else
    match (readFrame loads key sock).1 with
    | .closed => [.closed]
    | .failed => [.failed]
    | read => read :: readAll (readFrame loads key sock).2
termination_by (symbols sock).length
decreasing_by exact readFrame_smaller _ended

variable (loads key) in
def Event.read : Event → Read Doc
  | .frame sent => .heard (sent.heard loads key)
  | .pause => .timeout

variable (loads key) in
theorem readAll_events {events : List Event} (readable : ∀ sent, .frame sent ∈ events → Readable key sent)
    (carried : symbols sock = events.flatMap (Event.symbols key)) :
    readAll loads key sock = events.map (Event.read loads key) ++ [.closed] := by
  induction events generalizing sock with
  | nil =>
    rw [symbols_eq_nil.mp carried, readAll, dif_pos rfl]
    rfl
  | cons event events ih =>
    have later : ∀ sent, .frame sent ∈ events → Readable key sent := fun sent inside => readable sent (List.mem_cons_of_mem _ inside)
    rw [List.flatMap_cons] at carried
    cases event with
    | frame sent =>
      obtain ⟨left, read, remains⟩ := readFrame_sent loads (readable sent List.mem_cons_self) carried
      have some : sock ≠ [] := by
        rintro rfl
        rw [readFrame_nil] at read
        cases read
      rw [readAll, dif_neg some, read, ih later remains]
      rfl
    | pause =>
      obtain ⟨left, read, remains⟩ := readFrame_pause loads key carried
      have some : sock ≠ [] := by
        rintro rfl
        rw [readFrame_nil] at read
        cases read
      rw [readAll, dif_neg some, read, ih later remains]
      rfl

variable (loads key) in
/-- The device reads what was sent, however the stream was cut, if each frame can be read;
    with a key whose stream does not begin with 0 each frame of a credible length can. -/
theorem readAll_stream {events : List Event} (carried : symbols sock = events.flatMap (Event.symbols key)) :
    ((∀ sent, .frame sent ∈ events → Readable key sent) →
      readAll loads key sock = events.map (Event.read loads key) ++ [.closed]) ∧
    (Telling key → ∀ sent : Sent, Plausible sent.body.length → Readable key sent) :=
  ⟨fun readable => readAll_events loads key readable carried, fun telling _ => readable_telling telling⟩

end

/-! ## Two objects -/

/-- The keystream of a key begins with another byte than 0. -/
theorem rc4_begins : rc4 [0] [75, 101, 121] = some [235] := by decide +kernel

/-- Byte by byte. -/
def Event.singles (key : Option Bytes) : Event → Socket
  | .frame sent => (sent.wire key).map (.data · [])
  | .pause => [.signal .timeout]

theorem symbols_events (key : Option Bytes) (events : List Event) :
    symbols (events.flatMap (Event.singles key)) = events.flatMap (Event.symbols key) := by
  induction events with
  | nil => rfl
  | cons event events ih =>
    rw [List.flatMap_cons, List.flatMap_cons, symbols_append, ih]
    cases event with
    | frame sent => rw [Event.singles, symbols_singles, Event.symbols]
    | pause => rfl

/-- Two empty objects, the second one encrypted, with a pause between them. -/
def mixed : List Event := [.frame (.plain [123, 125]), .pause, .frame (.sealed [123, 125])]

theorem readAll_stream_mixed :
    readAll (fun body => if body = [123, 125] then some () else none) (some [75, 101, 121])
        (mixed.flatMap (Event.singles (some [75, 101, 121]))) =
      [.heard (.doc ()), .timeout, .heard (.doc ()), .closed] := by
  obtain ⟨reads, credible⟩ := readAll_stream (fun body => if body = [123, 125] then some () else none) (some [75, 101, 121])
    (symbols_events _ mixed)
  have telling : Telling (some [75, 101, 121]) := ⟨_, rfl, by decide, _, rc4_begins, by decide⟩
  refine reads fun sent inside => credible telling sent ?_
  rcases (by simpa [mixed] using inside : sent = .plain [123, 125] ∨ sent = .sealed [123, 125]) with rfl | rfl
  · decide
  · decide

end EllaFi.EcspFrames
