import Platho.Resecure.Carry
import Platho.Resecure.Store

/-!
# A carried record comes back

A writer only appends: whatever `carryValue` does, the bytes that were written before stay, and
the bytes that it adds do not depend on them. So `carryRecordInto` either adds the bytes of the
record or leaves the writer as it was. A reader does not look behind what it reads, so the records
of a chunk are read one after the other, and what `sameCarried` accepts is equal.
-/

namespace Platho.Resecure

open Js

/-! ## The writer -/

theorem doubled_ge {needed steps size : Nat} (positive : 0 < size)
    (enough : needed ≤ size * 2 ^ steps) : needed ≤ doubled needed steps size := by
  induction steps generalizing size with
  | zero => simpa [doubled] using enough
  | succ steps ih =>
    rw [doubled]
    split
    · apply ih (by omega)
      rw [Nat.pow_succ] at enough
      rwa [Nat.mul_assoc, Nat.mul_comm 2]
    · omega

namespace CarryWriter

/-- What is written lies in the buffer, and the buffer can grow by doubling. -/
structure Sound (writer : CarryWriter) : Prop where
  fits : writer.size ≤ writer.bytes.length
  grows : 0 < writer.bytes.length

variable {writer : CarryWriter}

theorem sound_new : carryWriter.Sound :=
  ⟨Nat.zero_le _, (List.length_replicate).symm ▸ Nat.succ_pos 1023⟩

theorem Sound.length_taken (sound : writer.Sound) : writer.taken.length = writer.size := by
  rw [taken, List.length_take, Nat.min_eq_left sound.fits]

/-- There is room for `n` more bytes, and what was written stays. -/
structure Roomy (writer after : CarryWriter) (n : Nat) : Prop where
  size : after.size = writer.size
  room : writer.size + n ≤ after.bytes.length
  taken : after.taken = writer.taken

theorem Sound.room (sound : writer.Sound) (n : Nat) : Roomy writer (writer.room n) n := by
  rw [CarryWriter.room]
  split
  · next enough => exact ⟨rfl, enough, rfl⟩
  · have positive : 0 < writer.bytes.length * 2 := by have := sound.grows; omega
    have large : writer.size + n ≤
        doubled (writer.size + n) (writer.size + n) (writer.bytes.length * 2) := by
      apply doubled_ge positive
      calc writer.size + n ≤ 2 ^ (writer.size + n) := Nat.le_of_lt Nat.lt_two_pow_self
        _ ≤ writer.bytes.length * 2 * 2 ^ (writer.size + n) := Nat.le_mul_of_pos_left _ positive
    have kept : (writer.bytes.take writer.size).length = writer.size := sound.length_taken
    refine ⟨rfl, ?_, ?_⟩
    · rw [List.length_append, List.length_replicate, kept]
      omega
    · show (writer.bytes.take writer.size ++ _).take writer.size = _
      rw [List.take_append_of_le_length (by omega), List.take_of_length_le (by omega)]
      rfl

/-- The writer has `part` behind what it had. -/
structure Extends (writer after : CarryWriter) (part : List Byte) : Prop where
  sound : after.Sound
  taken : after.taken = writer.taken ++ part

theorem put_taken {value : Byte} (room : writer.size < writer.bytes.length) :
    (writer.put value).taken = writer.taken ++ [value] := by
  show (writer.bytes.set writer.size value).take (writer.size + 1) = _
  rw [List.take_succ_eq_append_getElem (by simpa using room), List.getElem_set_self,
    List.take_set_of_le (Nat.le_refl _)]
  rfl

theorem foldl_put (part : List Byte) (room : writer.size + part.length ≤ writer.bytes.length)
    (grows : 0 < writer.bytes.length) : Extends writer (part.foldl put writer) part := by
  induction part generalizing writer with
  | nil => exact ⟨⟨by simpa using room, grows⟩, by simp⟩
  | cons value part ih =>
    rw [List.length_cons] at room
    have rest : Extends (writer.put value) (part.foldl put (writer.put value)) part :=
      ih (by simp [put]; omega) (by simpa [put] using grows)
    refine ⟨rest.sound, ?_⟩
    rw [List.foldl_cons, rest.taken, put_taken (by omega), List.append_assoc]
    rfl

/-- Making room and writing into it. -/
theorem Sound.foldl_put_room (sound : writer.Sound) (part : List Byte) (n : Nat)
    (short : part.length ≤ n) : Extends writer (part.foldl put (writer.room n)) part := by
  have roomy := sound.room n
  have grows : 0 < (writer.room n).bytes.length := by
    rw [CarryWriter.room]
    split
    · exact sound.grows
    · have := roomy.room
      rw [CarryWriter.room, if_neg ‹_›] at this
      have := sound.fits
      have := sound.grows
      simp only [List.length_append, List.length_take, List.length_replicate] at *
      omega
  have fits : (writer.room n).size + part.length ≤ (writer.room n).bytes.length := by
    have := roomy.room
    rw [roomy.size]
    omega
  have written := foldl_put part fits grows
  exact ⟨written.sound, by rw [written.taken, roomy.taken]⟩

end CarryWriter

theorem length_uintBytes_le (room rest : Nat) : (uintBytes room rest).length ≤ room := by
  induction room generalizing rest with
  | zero => simp [uintBytes]
  | succ room ih =>
    rw [uintBytes]
    split
    · simpa using ih (rest / 0x80)
    · simp

/-! ## Writing only appends -/

namespace Carry

/-- Whatever was written before, the program adds `part`, and gives up or does not. -/
def Writes (program : Carry) (done : Bool) (part : List Byte) : Prop :=
  ∀ writer, writer.Sound → (program.run writer).1.isOk = done ∧
    CarryWriter.Extends writer (program.run writer).2 part

/-- The program has one result and one part that it adds. -/
def Appends (program : Carry) : Prop := ∃ done part, program.Writes done part

variable {program next : Carry}

theorem run_bind (writer : CarryWriter) : (do program; next : Carry).run writer =
    match program.run writer with
    | (.ok _, written) => next.run written
    | (.error gaveUp, written) => (.error gaveUp, written) := by
  rw [ExceptT.run_bind]
  show StateT.bind program.run _ writer = _
  rw [StateT.bind]
  cases program.run writer with
  | mk result written => cases result <;> rfl

theorem appends_pure : Appends (pure ()) :=
  ⟨true, [], fun _ sound => ⟨rfl, sound, (List.append_nil _).symm⟩⟩

theorem appends_throw : Appends (throw ⟨⟩) :=
  ⟨false, [], fun _ sound => ⟨rfl, sound, (List.append_nil _).symm⟩⟩

theorem Appends.bind (first : program.Appends) (second : next.Appends) :
    Appends (do program; next) := by
  obtain ⟨done, part, first⟩ := first
  obtain ⟨done', part', second⟩ := second
  cases done with
  | false =>
    refine ⟨false, part, fun writer sound => ?_⟩
    obtain ⟨gaveUp, extended⟩ := first writer sound
    rw [run_bind]
    cases ran : program.run writer with
    | mk result written =>
      rw [ran] at gaveUp extended
      cases result with
      | ok _ => simp [Except.isOk, Except.toBool] at gaveUp
      | error _ => exact ⟨rfl, extended⟩
  | true =>
    refine ⟨done', part ++ part', fun writer sound => ?_⟩
    obtain ⟨went, extended⟩ := first writer sound
    rw [run_bind]
    cases ran : program.run writer with
    | mk result written =>
      rw [ran] at went extended
      cases result with
      | error _ => simp [Except.isOk, Except.toBool] at went
      | ok _ =>
        obtain ⟨result, further⟩ := second written extended.sound
        refine ⟨result, further.sound, ?_⟩
        rw [further.taken, extended.taken, List.append_assoc]

theorem Appends.ite {condition : Prop} [Decidable condition] (first : program.Appends)
    (second : next.Appends) : Appends (if condition then program else next) := by
  split
  · exact first
  · exact second

theorem Appends.forM {α : Type} {write : α → Carry} (each : ∀ item, (write item).Appends)
    (items : List α) : Appends (items.forM write) := by
  induction items with
  | nil => exact appends_pure
  | cons item items ih =>
    show Appends (do write item; items.forM write)
    exact (each item).bind ih

theorem appends_byte (value : Byte) : (byte value).Appends :=
  ⟨true, [value], fun _ sound => ⟨rfl, sound.foldl_put_room [value] 1 (Nat.le_refl 1)⟩⟩

theorem appends_uint (value : Nat) : (uint value).Appends :=
  ⟨true, uintBytes 8 value, fun _ sound =>
    ⟨rfl, sound.foldl_put_room _ 8 (length_uintBytes_le 8 value)⟩⟩

theorem appends_float (value : Double) : (float value).Appends :=
  ⟨true, value.toBytes, fun _ sound =>
    ⟨rfl, sound.foldl_put_room _ 8 (by simp [Double.toBytes])⟩⟩

theorem appends_raw (part : List Byte) : (raw part).Appends :=
  ⟨true, part, fun _ sound => ⟨rfl, sound.foldl_put_room part _ (Nat.le_refl _)⟩⟩

theorem appends_block (part : List Byte) : (block part).Appends :=
  (appends_uint _).bind (appends_raw part)

end Carry

open Carry

theorem appends_carryString (text : Text) : (carryString text).Appends := by
  rw [carryString]
  apply Appends.ite
  · exact (appends_byte _).bind (appends_block _)
  · exact (appends_byte _).bind ((appends_uint _).bind (appends_raw _))

theorem appends_carryValue (levels : Nat) (value : Clone) : (carryValue levels value).Appends := by
  induction levels generalizing value with
  | zero => exact appends_throw
  | succ levels ih =>
    cases value with
    | undefined => exact appends_byte _
    | null => exact appends_byte _
    | boolean value => exact appends_byte _
    | number value => exact (appends_byte _).bind (appends_float _)
    | bigint value => exact (appends_byte _).bind (appends_block _)
    | string value => exact appends_carryString value
    | date time => exact (appends_byte _).bind (appends_float _)
    | array items named =>
      apply appends_throw.ite
      apply appends_throw.ite
      exact (appends_byte _).bind ((appends_uint _).bind (Appends.forM (fun _ => ih _) items))
    | object properties =>
      exact (appends_byte _).bind ((appends_uint _).bind
        (Appends.forM (fun _ => (appends_carryString _).bind (ih _)) properties))
    | buffer bytes resizable =>
      apply appends_throw.ite
      exact (appends_byte _).bind (appends_block _)
    | view kind buffer byteOffset length =>
      rw [carryValue]
      split
      · exact (appends_byte _).bind ((appends_byte _).bind ((appends_uint _).bind
          ((appends_uint _).bind (appends_block _))))
      · exact appends_throw
    | map entries =>
      exact (appends_byte _).bind ((appends_uint _).bind
        (Appends.forM (fun _ => (ih _).bind (ih _)) entries))
    | set items =>
      exact (appends_byte _).bind ((appends_uint _).bind (Appends.forM ih items))
    | platform content properties => exact appends_throw
    | again place => exact appends_throw

theorem appends_writeRecord (key : Text) (value : Clone) : (writeRecord key value).Appends :=
  (appends_carryValue _ _).bind (appends_carryValue _ _)

/-! ## One record -/

section Record

variable {key : Text} {value : Clone} {writer : CarryWriter}

/-- Behind any bytes the record is either written, as its own bytes, or not at all. -/
theorem carryRecordInto_spec (sound : writer.Sound) (key : Text) (value : Clone) :
    (carryRecordInto writer key value).1 = (carryRecordBytes key value).isSome ∧
      writer.Extends (carryRecordInto writer key value).2
        ((carryRecordBytes key value).getD []) := by
  obtain ⟨done, part, writes⟩ := appends_writeRecord key value
  -- what the record comes to depends on `done` and `part` alone
  have into : ∀ {writer : CarryWriter}, writer.Sound →
      (carryRecordInto writer key value).1 = (done && readsBack part key value) ∧
        writer.Extends (carryRecordInto writer key value).2
          (if done && readsBack part key value then part else []) := by
    intro writer sound
    obtain ⟨result, extended⟩ := writes writer sound
    have same : ((writeRecord key value).run writer).2.span writer.size = part := by
      rw [CarryWriter.span, extended.taken, ← sound.length_taken, List.drop_left]
    have undone : writer.Extends (((writeRecord key value).run writer).2.rewind writer.size) [] := by
      have long : writer.size ≤ ((writeRecord key value).run writer).2.bytes.length := by
        have lengths := congrArg List.length extended.taken
        rw [extended.sound.length_taken, List.length_append, sound.length_taken] at lengths
        have := extended.sound.fits
        omega
      refine ⟨⟨long, extended.sound.grows⟩, ?_⟩
      have lengths := congrArg List.length extended.taken
      rw [extended.sound.length_taken, List.length_append, sound.length_taken] at lengths
      have prefixed := congrArg (List.take writer.size) extended.taken
      rw [List.take_append_of_le_length sound.length_taken.ge,
        List.take_of_length_le sound.length_taken.le, CarryWriter.taken, List.take_take,
        Nat.min_eq_left (by omega)] at prefixed
      simpa [CarryWriter.taken, CarryWriter.rewind] using prefixed
    rw [carryRecordInto]
    cases ran : (writeRecord key value).run writer with
    | mk outcome written =>
      rw [ran] at result extended same undone
      cases outcome with
      | error gaveUp =>
        have : done = false := result.symm
        subst this
        exact ⟨rfl, undone⟩
      | ok _ =>
        have : done = true := result.symm
        subst this
        simp only [same]
        cases back : readsBack part key value with
        | true => exact ⟨rfl, extended⟩
        | false => exact ⟨rfl, undone⟩
  have fresh := into CarryWriter.sound_new
  have bytes : carryRecordBytes key value =
      if done && readsBack part key value then some part else none := by
    rw [carryRecordBytes, fresh.1, fresh.2.taken]
    split <;> rfl
  obtain ⟨accepted, extended⟩ := into sound
  rw [accepted, bytes]
  cases hold : done && readsBack part key value with
  | true => exact ⟨rfl, by simpa [hold] using extended⟩
  | false => exact ⟨rfl, by simpa [hold] using extended⟩

end Record

/-! ## Reading looks at what it reads -/

namespace Reading

variable {α β : Type}

/-- What the program read it reads as well when more stands behind. -/
def Prefixed (read : Reading α) : Prop :=
  ∀ ⦃bytes value rest⦄, read bytes = .ok (value, rest) →
    ∀ more, read (bytes ++ more) = .ok (value, rest ++ more)

/-- Whatever the program answers satisfies `P`. -/
def Gives (read : Reading α) (P : α → Prop) : Prop :=
  ∀ ⦃bytes value rest⦄, read bytes = .ok (value, rest) → P value

variable {read : Reading α} {next : α → Reading β} {P : α → Prop} {Q : β → Prop}

theorem bind_eq_ok {bytes : List Byte} {value : β} {rest : List Byte} :
    (read >>= next) bytes = .ok (value, rest) ↔
      ∃ first middle, read bytes = .ok (first, middle) ∧
        next first middle = .ok (value, rest) := by
  show (StateT.bind read next bytes) = _ ↔ _
  rw [StateT.bind]
  cases read bytes with
  | error message => exact ⟨nofun, fun ⟨_, _, eq, _⟩ => nomatch eq⟩
  | ok result =>
    constructor
    · exact fun eq => ⟨result.1, result.2, rfl, eq⟩
    · rintro ⟨first, middle, eq, later⟩
      cases eq
      exact later

theorem Prefixed.bind (first : Prefixed read) (second : ∀ value, Prefixed (next value)) :
    Prefixed (read >>= next) := by
  intro bytes value rest eq more
  obtain ⟨middle, left, eq, later⟩ := bind_eq_ok.mp eq
  exact bind_eq_ok.mpr ⟨middle, left ++ more, first eq more, second middle later more⟩

theorem prefixed_pure (value : α) : Prefixed (pure value : Reading α) := by
  intro bytes value' rest eq more
  cases eq
  rfl

theorem prefixed_throw (error : String) : Prefixed (throw error : Reading α) :=
  fun _ _ _ eq => nomatch eq

theorem prefixed_notLonger (n : Nat) (error : String) : Prefixed (notLonger n error) := by
  intro bytes value rest eq more
  rw [notLonger] at eq ⊢
  split at eq
  · nomatch eq
  · cases eq
    rw [if_neg (by rw [List.length_append]; omega)]
    rfl

theorem prefixed_refuse (condition : Bool) (error : String) :
    Prefixed (refuse condition error) := by
  rw [refuse]
  split
  · exact prefixed_throw error
  · exact prefixed_pure ()

theorem raw_eq (n : Nat) (bytes : List Byte) : raw n bytes =
    if bytes.length < n then throw "a carried record ends early"
    else pure (bytes.take n, bytes.drop n) := by
  simp only [raw, need, bind, StateT.bind]
  split <;> rfl

theorem prefixed_raw (n : Nat) : Prefixed (raw n) := by
  intro bytes value rest eq more
  rw [raw_eq] at eq ⊢
  split at eq
  · nomatch eq
  · cases eq
    rw [if_neg (by rw [List.length_append]; omega), List.take_append_of_le_length (by omega),
      List.drop_append_of_le_length (by omega)]
    rfl

theorem prefixed_byte : Prefixed byte := (prefixed_raw 1).bind fun _ => prefixed_pure _

theorem prefixed_float : Prefixed float := (prefixed_raw 8).bind fun _ => prefixed_pure _

theorem uintFrom_append {value scale : Nat} {bytes : List Byte} {length : Nat} {rest : List Byte}
    (eq : uintFrom value scale bytes = .ok (length, rest)) (more : List Byte) :
    uintFrom value scale (bytes ++ more) = .ok (length, rest ++ more) := by
  fun_induction uintFrom value scale bytes with
  | case1 => nomatch eq
  | case2 _ _ _ _ _ small =>
    injection eq with pair
    injection pair with read left
    rw [List.cons_append, uintFrom, if_pos small, ← read, ← left]
    rfl
  | case3 => nomatch eq
  | case4 _ _ _ _ _ large short ih =>
    rw [List.cons_append, uintFrom, if_neg large, if_neg short]
    exact ih eq

theorem prefixed_uint : Prefixed uint := fun _ _ _ eq more => uintFrom_append eq more

theorem prefixed_block : Prefixed block := prefixed_uint.bind prefixed_raw

theorem prefixed_ofOption (error : String) (value : Option α) :
    Prefixed (ofOption error value) := by
  cases value with
  | none => exact prefixed_throw error
  | some value => exact prefixed_pure value

theorem Prefixed.times (each : Prefixed read) (n : Nat) : Prefixed (times read n) := by
  induction n with
  | zero => exact prefixed_pure []
  | succ n ih => exact each.bind fun _ => ih.bind fun _ => prefixed_pure _

theorem Gives.bind (first : Gives read P) (second : ∀ value, P value → Gives (next value) Q) :
    Gives (read >>= next) Q := by
  intro bytes value rest eq
  obtain ⟨middle, left, eq, later⟩ := bind_eq_ok.mp eq
  exact second middle (first eq) later

theorem gives_pure {value : α} (holds : P value) : Gives (pure value) P := by
  intro bytes value' rest eq
  cases eq
  exact holds

theorem gives_throw (error : String) : Gives (throw error) P := fun _ _ _ eq => nomatch eq

theorem gives_any (read : Reading α) : Gives read fun _ => True :=
  fun _ _ _ _ => trivial

/-- The answer of the last program counts. -/
theorem Gives.last (second : ∀ value, Gives (next value) Q) : Gives (read >>= next) Q :=
  (gives_any read).bind fun value _ => second value

theorem Gives.times (each : Gives read P) (n : Nat) :
    Gives (times read n) fun values => ∀ value ∈ values, P value := by
  induction n with
  | zero => exact gives_pure nofun
  | succ n ih =>
    exact each.bind fun _ first => ih.bind fun _ rest =>
      gives_pure (List.forall_mem_cons.mpr ⟨first, rest⟩)

end Reading

open Reading

theorem prefixed_readTag : Prefixed readTag := prefixed_byte.bind fun _ => prefixed_pure _

theorem prefixed_decodeText (bytes : List Byte) : Prefixed (decodeText bytes) :=
  prefixed_ofOption _ _

theorem prefixed_readCarriedString (tag : Option CarryTag) : Prefixed (readCarriedString tag) := by
  rw [readCarriedString.eq_def]
  split
  · exact prefixed_block.bind prefixed_decodeText
  · exact prefixed_uint.bind fun _ => (prefixed_raw _).bind fun _ => prefixed_pure _
  · exact prefixed_throw _

theorem prefixed_readCarried (levels : Nat) : Prefixed (readCarried levels) := by
  induction levels with
  | zero => exact prefixed_throw _
  | succ levels ih =>
    refine prefixed_readTag.bind fun tag => ?_
    have text := (prefixed_readCarriedString tag).bind fun text =>
      prefixed_pure (Clone.string text)
    cases tag with
    | none => exact prefixed_throw _
    | some tag =>
      cases tag with
      | undefined => exact prefixed_pure _
      | null => exact prefixed_pure _
      | false => exact prefixed_pure _
      | true => exact prefixed_pure _
      | number => exact prefixed_float.bind fun _ => prefixed_pure _
      | utf8 => exact text
      | utf16 => exact text
      | bigint =>
        exact prefixed_block.bind fun _ => (prefixed_decodeText _).bind fun _ =>
          (prefixed_ofOption _ _).bind fun _ => prefixed_pure _
      | date => exact prefixed_float.bind fun _ => prefixed_pure _
      | array =>
        exact prefixed_uint.bind fun _ => (prefixed_notLonger _ _).bind fun _ =>
          (prefixed_refuse _ _).bind fun _ => (ih.times _).bind fun _ => prefixed_pure _
      | object =>
        have property := prefixed_readTag.bind fun tag =>
          (prefixed_readCarriedString tag).bind fun key =>
            ih.bind fun value => prefixed_pure (key, value)
        exact prefixed_uint.bind fun _ => (prefixed_notLonger _ _).bind fun _ =>
          (property.times _).bind fun _ => prefixed_pure _
      | buffer => exact prefixed_block.bind fun _ => prefixed_pure _
      | view =>
        exact prefixed_byte.bind fun _ => prefixed_uint.bind fun _ =>
          prefixed_uint.bind fun _ => prefixed_block.bind fun _ =>
            (prefixed_ofOption _ _).bind fun _ => prefixed_ofOption _ _
      | map =>
        have entry := ih.bind fun key => ih.bind fun value => prefixed_pure (key, value)
        exact prefixed_uint.bind fun _ => (prefixed_notLonger _ _).bind fun _ =>
          (entry.times _).bind fun _ => prefixed_pure _
      | set =>
        exact prefixed_uint.bind fun _ => (prefixed_notLonger _ _).bind fun _ =>
          (ih.times _).bind fun _ => prefixed_pure _

theorem prefixed_readRecord : Prefixed readRecord :=
  (prefixed_readCarried _).bind fun _ => (prefixed_readCarried _).bind fun _ => prefixed_pure _

/-! ## What is written and read -/

/-- A value without holes, extra names, sharing, growing buffers or objects without a tag. -/
inductive Plain : Clone → Prop
  | undefined : Plain .undefined
  | null : Plain .null
  | boolean (value : Bool) : Plain (.boolean value)
  | number (value : Double) : Plain (.number value)
  | bigint (value : Int) : Plain (.bigint value)
  | string (value : Text) : Plain (.string value)
  | date (time : Double) : Plain (.date time)
  | array {items : List Clone} : (∀ item ∈ items, Plain item) →
      Plain (.array (items.map some) [])
  | object {properties : List (Text × Clone)} : (∀ property ∈ properties, Plain property.2) →
      Plain (.object properties)
  | buffer (bytes : List Byte) : Plain (.buffer bytes false)
  | view (kind : ViewKind) (bytes : List Byte) (byteOffset length : Nat) :
      Plain (.view kind (.buffer bytes false) byteOffset length)
  | map {entries : List (Clone × Clone)} : (∀ entry ∈ entries, Plain entry.1) →
      (∀ entry ∈ entries, Plain entry.2) → Plain (.map entries)
  | set {items : List Clone} : (∀ item ∈ items, Plain item) → Plain (.set items)

namespace Carry

/-- The program goes through from some writer. -/
def Accepts (program : Carry) : Prop := ∃ writer, (program.run writer).1.isOk = true

variable {program next : Carry}

theorem not_accepts_throw : ¬ Accepts (throw ⟨⟩) := nofun

theorem Accepts.and (accepts : Accepts (do program; next)) :
    program.Accepts ∧ next.Accepts := by
  obtain ⟨writer, went⟩ := accepts
  rw [run_bind] at went
  cases ran : program.run writer with
  | mk result written =>
    rw [ran] at went
    cases result with
    | error _ => nomatch went
    | ok _ => exact ⟨⟨writer, by rw [ran]; rfl⟩, ⟨written, went⟩⟩

theorem Accepts.forM {α : Type} {write : α → Carry} {items : List α}
    (accepts : Accepts (items.forM write)) : ∀ item ∈ items, (write item).Accepts := by
  induction items with
  | nil => nofun
  | cons item items ih =>
    have both : Accepts (do write item; items.forM write) := accepts
    exact List.forall_mem_cons.mpr ⟨both.and.1, ih both.and.2⟩

end Carry

theorem Plain.of_carryValue {levels : Nat} {value : Clone}
    (accepts : (carryValue levels value).Accepts) : Plain value := by
  induction levels generalizing value with
  | zero => exact absurd accepts not_accepts_throw
  | succ levels ih =>
    cases value with
    | undefined => exact .undefined
    | null => exact .null
    | boolean value => exact .boolean value
    | number value => exact .number value
    | bigint value => exact .bigint value
    | string value => exact .string value
    | date time => exact .date time
    | array items named =>
      rw [carryValue] at accepts
      split at accepts
      · exact absurd accepts not_accepts_throw
      · next whole =>
        split at accepts
        · exact absurd accepts not_accepts_throw
        · next full =>
            rw [Bool.not_eq_true', Bool.not_eq_false] at full
            have full : ∀ item ∈ items, item.isSome = true := List.all_eq_true.mp full
            have bare : named = [] := by
              rw [List.filter_eq_self.mpr full] at whole
              exact List.length_eq_zero_iff.mp (by omega)
            have eq : (items.map (·.getD .undefined)).map some = items := by
              rw [List.map_map]
              refine (List.map_congr_left fun item member => ?_).trans (List.map_id items)
              obtain ⟨held, rfl⟩ := Option.isSome_iff_exists.mp (full item member)
              rfl
            rw [bare, ← eq]
            apply Plain.array
            intro item member
            obtain ⟨held, stored, rfl⟩ := List.mem_map.mp member
            exact ih (accepts.and.2.and.2.forM held stored)
    | object properties =>
      exact .object fun property member =>
        ih (accepts.and.2.and.2.forM property member).and.2
    | buffer bytes resizable =>
      cases resizable with
      | true => exact absurd accepts not_accepts_throw
      | false => exact .buffer bytes
    | view kind buffer byteOffset length =>
      rw [carryValue] at accepts
      cases viewed : carriedView kind buffer with
      | none =>
        rw [viewed] at accepts
        exact absurd accepts not_accepts_throw
      | some found =>
        rw [carriedView.eq_def] at viewed
        split at viewed
        · exact .view kind _ byteOffset length
        · nomatch viewed
    | map entries =>
      exact .map (fun entry member => ih (accepts.and.2.and.2.forM entry member).and.1)
        fun entry member => ih (accepts.and.2.and.2.forM entry member).and.2
    | set items => exact .set fun item member => ih (accepts.and.2.and.2.forM item member)
    | platform content properties => exact absurd accepts not_accepts_throw
    | again place => exact absurd accepts not_accepts_throw

theorem Plain.normalKey {value : Clone} (plain : Plain value) : Plain value.normalKey := by
  cases value with
  | number value => exact .number _
  | _ => exact plain

theorem Plain.setAdd {items : List Clone} {item : Clone} (held : ∀ item ∈ items, Plain item)
    (plain : Plain item) : ∀ item' ∈ Clone.setAdd items item, Plain item' := by
  intro item' member
  rw [Clone.setAdd] at member
  split at member
  · exact held item' member
  · cases List.mem_append.mp member with
    | inl old => exact held item' old
    | inr new => exact List.mem_singleton.mp new ▸ plain.normalKey

theorem Plain.mapSet {entries : List (Clone × Clone)} {key value : Clone}
    (held : ∀ entry ∈ entries, Plain entry.1 ∧ Plain entry.2) (plainKey : Plain key)
    (plainValue : Plain value) :
    ∀ entry ∈ Clone.mapSet entries key value, Plain entry.1 ∧ Plain entry.2 := by
  intro entry member
  rw [Clone.mapSet] at member
  split at member
  · obtain ⟨old, stored, rfl⟩ := List.mem_map.mp member
    split
    · exact ⟨(held old stored).1, plainValue⟩
    · exact held old stored
  · cases List.mem_append.mp member with
    | inl old => exact held entry old
    | inr new => exact List.mem_singleton.mp new ▸ ⟨plainKey.normalKey, plainValue⟩

theorem Plain.defineProperty {properties : List (Text × Clone)} {key : Text} {value : Clone}
    (held : ∀ property ∈ properties, Plain property.2) (plain : Plain value) :
    ∀ property ∈ Clone.defineProperty properties key value, Plain property.2 := by
  intro property member
  rw [Clone.defineProperty] at member
  split at member
  · obtain ⟨old, stored, rfl⟩ := List.mem_map.mp member
    split
    · exact plain
    · exact held old stored
  · split at member
    · cases List.mem_append.mp member with
      | inl old => exact held property old
      | inr new => exact List.mem_singleton.mp new ▸ plain
    · cases List.mem_append.mp member with
      | inl lower => exact held property ((List.takeWhile_sublist _).subset lower)
      | inr rest =>
        cases List.mem_cons.mp rest with
        | inl new => exact new ▸ plain
        | inr higher => exact held property (List.mem_of_mem_drop higher)

/-- What a list of additions keeps, it keeps as a whole. -/
theorem foldl_keeps {α β : Type} {step : List β → α → List β} {P : α → Prop} {Q : β → Prop}
    (keeps : ∀ out a, (∀ b ∈ out, Q b) → P a → ∀ b ∈ step out a, Q b) {items : List α}
    (each : ∀ item ∈ items, P item) {out : List β} (held : ∀ b ∈ out, Q b) :
    ∀ b ∈ items.foldl step out, Q b := by
  induction items generalizing out with
  | nil => exact held
  | cons item items ih =>
    obtain ⟨first, rest⟩ := List.forall_mem_cons.mp each
    exact ih rest (keeps out item held first)

theorem gives_readCarried (levels : Nat) : Gives (readCarried levels) Plain := by
  induction levels with
  | zero => exact gives_throw _
  | succ levels ih =>
    refine Gives.last fun tag => ?_
    have text : Gives (do return .string (← readCarriedString tag)) Plain :=
      Gives.last fun text => gives_pure (.string text)
    cases tag with
    | none => exact gives_throw _
    | some tag =>
      cases tag with
      | undefined => exact gives_pure .undefined
      | null => exact gives_pure .null
      | false => exact gives_pure (.boolean false)
      | true => exact gives_pure (.boolean true)
      | number => exact Gives.last fun _ => gives_pure (.number _)
      | utf8 => exact text
      | utf16 => exact text
      | bigint =>
        exact Gives.last fun _ => Gives.last fun _ => Gives.last fun _ =>
          gives_pure (.bigint _)
      | date => exact Gives.last fun _ => gives_pure (.date _)
      | array =>
        exact Gives.last fun _ => Gives.last fun _ => Gives.last fun _ =>
          (ih.times _).bind fun _ items => gives_pure (.array items)
      | object =>
        have property : Gives (do
            let key ← readCarriedString (← readTag)
            return (key, ← readCarried levels)) fun property => Plain property.2 :=
          Gives.last fun _ => Gives.last fun _ => ih.bind fun _ value => gives_pure value
        exact Gives.last fun _ => Gives.last fun _ =>
          (property.times _).bind fun _ properties => gives_pure (.object
            (foldl_keeps (fun _ _ => Plain.defineProperty) properties nofun))
      | buffer => exact Gives.last fun _ => gives_pure (.buffer _)
      | view =>
        refine Gives.last fun _ => Gives.last fun _ => Gives.last fun _ =>
          Gives.last fun _ => Gives.last fun kind => ?_
        rw [newView]
        split
        · exact gives_pure (.view kind _ _ _)
        · exact gives_throw _
      | map =>
        have entry : Gives (do return (← readCarried levels, ← readCarried levels))
            fun entry => Plain entry.1 ∧ Plain entry.2 :=
          ih.bind fun _ key => ih.bind fun _ value => gives_pure ⟨key, value⟩
        refine Gives.last fun _ => Gives.last fun _ =>
          (entry.times _).bind fun _ entries => gives_pure ?_
        have none : ∀ entry ∈ ([] : List (Clone × Clone)), Plain entry.1 ∧ Plain entry.2 :=
          nofun
        have each := foldl_keeps (fun _ _ held plain => Plain.mapSet held plain.1 plain.2)
          entries none
        exact .map (fun entry member => (each entry member).1)
          fun entry member => (each entry member).2
      | set =>
        exact Gives.last fun _ => Gives.last fun _ =>
          (ih.times _).bind fun _ items => gives_pure (.set
            (foldl_keeps (fun _ _ => Plain.setAdd) items nofun))

/-! ## What compares as the same is equal -/

/-- Lists whose items are the same in pairs, in a way that means they are equal. -/
theorem eq_of_sameItems {α : Type} {same : α → α → Bool} {P Q : α → Prop}
    (eq : ∀ a b, same a b = true → P a → Q b → a = b) {as bs : List α}
    (held : sameItems same as bs = true) (left : ∀ a ∈ as, P a) (right : ∀ b ∈ bs, Q b) :
    as = bs := by
  induction as generalizing bs with
  | nil =>
    cases bs with
    | nil => rfl
    | cons b bs => nomatch held
  | cons a as ih =>
    cases bs with
    | nil => nomatch held
    | cons b bs =>
      rw [sameItems, Bool.and_eq_true] at held
      obtain ⟨here, left⟩ := List.forall_mem_cons.mp left
      obtain ⟨there, right⟩ := List.forall_mem_cons.mp right
      rw [eq a b held.1 here there, ih held.2 left right]

theorem sameItems_map {α β : Type} {f : α → β} {same : β → β → Bool} {as bs : List α} :
    sameItems same (as.map f) (bs.map f) = sameItems (fun a b => same (f a) (f b)) as bs := by
  induction as generalizing bs with
  | nil => cases bs <;> rfl
  | cons a as ih =>
    cases bs with
    | nil => rfl
    | cons b bs => rw [List.map_cons, List.map_cons, sameItems, sameItems, ih]

theorem eq_of_sameCarried {levels : Nat} {a b : Clone} (same : sameCarried levels a b = true)
    (left : Plain a) (right : Plain b) : a = b := by
  induction levels generalizing a b with
  | zero => nomatch same
  | succ levels ih =>
    rw [sameCarried.eq_def] at same
    dsimp only at same
    split at same
    · rfl
    · rfl
    · rw [of_decide_eq_true same]
    · rw [of_decide_eq_true same]
    · rw [of_decide_eq_true same]
    · rw [of_decide_eq_true same]
    · cases left with
      | array left =>
        cases right with
        | array right =>
          rw [sameItems_map] at same
          rw [eq_of_sameItems (fun _ _ => ih) same left right]
    · cases left with
      | object left =>
        cases right with
        | object right =>
          rw [eq_of_sameItems (fun a b same left right => ?_) same left right]
          simp only [Bool.and_eq_true, decide_eq_true_eq] at same
          exact Prod.ext same.1 (ih same.2 left right)
    · rw [of_decide_eq_true same]
    · cases left with
      | buffer =>
        cases right with
        | buffer => rw [of_decide_eq_true same]
    · cases left with
      | view =>
        cases right with
        | view =>
          simp only [Bool.and_eq_true, Bool.or_eq_true, decide_eq_true_eq, viewedBytes]
            at same
          obtain ⟨⟨⟨⟨kind, offset⟩, length⟩, items⟩, bytes⟩ := same
          have bytes := of_decide_eq_true bytes
          subst kind offset bytes
          cases items with
          | inr items => rw [items]
          | inl dataView =>
            subst dataView
            rw [show _ = _ from Nat.eq_of_mul_eq_mul_right Nat.one_pos length]
    · cases left with
      | map leftKeys leftValues =>
        cases right with
        | map rightKeys rightValues =>
          rw [eq_of_sameItems (P := fun entry => Plain entry.1 ∧ Plain entry.2)
            (Q := fun entry => Plain entry.1 ∧ Plain entry.2)
            (fun a b same left right => ?_) same
            (fun entry member => ⟨leftKeys entry member, leftValues entry member⟩)
            (fun entry member => ⟨rightKeys entry member, rightValues entry member⟩)]
          have pair : ∀ {entry : Clone × Clone}, Plain entry.1 ∧ Plain entry.2 →
              Plain (.array [some entry.1, some entry.2] []) := fun {entry} plain =>
            .array (List.forall_mem_cons.mpr
              ⟨plain.1, List.forall_mem_singleton.mpr plain.2⟩)
          have eq := ih same (pair left) (pair right)
          simp only [Clone.array.injEq, List.cons.injEq, Option.some.injEq] at eq
          exact Prod.ext eq.1.1 eq.1.2.1
    · cases left with
      | set left =>
        cases right with
        | set right => rw [eq_of_sameItems (fun _ _ => ih) same left right]
    · nomatch same

/-! ## The records of a chunk -/

/-- The bytes of a record are read back as the record, whatever follows them. -/
theorem readRecord_carried {key : Text} {value : Clone} {bytes : List Byte}
    (carried : carryRecordBytes key value = some bytes) (more : List Byte) :
    readRecord (bytes ++ more) = .ok ((.string key, value), more) := by
  have written := carryRecordInto_spec CarryWriter.sound_new key value
  rw [carried] at written
  have accepted := written.1
  have taken := written.2.taken
  rw [carryRecordInto] at accepted taken
  cases ran : (writeRecord key value).run carryWriter with
  | mk result after =>
    rw [ran] at accepted taken
    cases result with
    | error _ => nomatch accepted
    | ok _ =>
      dsimp only at accepted taken
      split at accepted
      · next back =>
        rw [if_pos back] at taken
        have plain : (carryValue carryLevels (.string key)).Accepts ∧
            (carryValue carryLevels value).Accepts :=
          Carry.Accepts.and ⟨carryWriter, by
            show ((writeRecord key value).run carryWriter).1.isOk = true
            rw [ran]
            rfl⟩
        have whole : after.span carryWriter.size = bytes := taken
        rw [whole, readsBack] at back
        split at back
        · next read =>
          obtain ⟨sameKey, sameValue⟩ := Bool.and_eq_true_iff.mp back
          obtain ⟨keyBack, middle, readKey, readValue⟩ := bind_eq_ok.mp read
          obtain ⟨valueBack, rest, readValue, done⟩ := bind_eq_ok.mp readValue
          injection done with pair
          injection pair with values rest
          injection values with keys values
          have keyPlain := gives_readCarried _ readKey
          have valuePlain := gives_readCarried _ readValue
          rw [keys] at keyPlain
          rw [values] at valuePlain
          have again := prefixed_readRecord read more
          rw [← eq_of_sameCarried sameKey (Plain.of_carryValue plain.1) keyPlain,
            ← eq_of_sameCarried sameValue (Plain.of_carryValue plain.2) valuePlain] at again
          simpa using again
        · nomatch back
      · nomatch accepted

theorem readRecord_nil : readRecord [] = .error "a carried record ends early" := rfl

/-- A record has a byte at least. -/
theorem carried_ne_nil {key : Text} {value : Clone} {bytes : List Byte}
    (carried : carryRecordBytes key value = some bytes) : bytes ≠ [] := by
  intro none
  subst none
  nomatch readRecord_nil.symm.trans (readRecord_carried carried [])

/-- The key and the value of a record, as they are read. -/
def asRead (record : StoredRecord) : Clone × Clone := (.string record.1, record.2)

/-- The bytes of records that follow one another. -/
def carriedBytes (records : List StoredRecord) : List Byte :=
  records.flatMap fun record => (carryRecordBytes record.1 record.2).getD []

theorem readRecords_carried {records : List StoredRecord}
    (carried : ∀ record ∈ records, (carryRecordBytes record.1 record.2).isSome = true)
    {enough : Nat} (bound : (carriedBytes records).length ≤ enough) :
    readRecords enough (carriedBytes records) = .ok (records.map asRead) := by
  induction records generalizing enough with
  | nil => cases enough <;> rfl
  | cons record records ih =>
    obtain ⟨here, rest⟩ := List.forall_mem_cons.mp carried
    obtain ⟨bytes, here⟩ := Option.isSome_iff_exists.mp here
    have split : carriedBytes (record :: records) = bytes ++ carriedBytes records := by
      rw [carriedBytes, List.flatMap_cons, here]
      rfl
    have some' := List.length_pos_iff.mpr (carried_ne_nil here)
    rw [split, List.length_append] at bound
    rw [split]
    cases enough with
    | zero => omega
    | succ enough =>
      have read := readRecord_carried here (carriedBytes records)
      cases bytes with
      | nil => exact absurd rfl (carried_ne_nil here)
      | cons byte bytes =>
        rw [List.cons_append] at read ⊢
        rw [readRecords.eq_def]
        dsimp only
        rw [read]
        show (readRecords enough (carriedBytes records)).map _ = _
        rw [ih rest (by omega)]
        rfl

/-- `readCarriedRecords` of the bytes of records answers these records. -/
theorem readCarriedRecords_carried {records : List StoredRecord}
    (carried : ∀ record ∈ records, (carryRecordBytes record.1 record.2).isSome = true) :
    readCarriedRecords (carriedBytes records) = .ok (records.map asRead) :=
  readRecords_carried carried (Nat.le_refl _)

end Platho.Resecure
