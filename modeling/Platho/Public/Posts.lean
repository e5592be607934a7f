import Platho.Public.Reading

/-!
# The posts of a page

A page of a public shard has a commitment, a time and a tag of the publisher for each entry, but
no text: the reader takes the messages that were sent to the shard, refused and forged ones among
them, and looks for the row that each belongs to. A commitment has one place in the map of rows,
which is of the row with the lowest number, and a row takes one post.

An address text is given here as what it parses to.
-/

namespace Platho.Public

open Tact Js Rpc
open PublicShard (Publishes Effect)
open HiddenIndex (step)

/-! ## The client -/

structure RawAddress where
  workchain : Int
  account : Nat
  deriving DecidableEq

def publicPublisherTagMod : Nat := 2 ^ 128

def publisherTagOf (rawAddress : RawAddress) : Nat := rawAddress.account % publicPublisherTagMod

variable (hashes : Hashes)

def publicBodyCommit (headerCell bodyCell : Cell) : Nat :=
  let h := hashes.cell headerCell
  let b := hashes.cell bodyCell
  hashes.cell (((Builder.empty.storeUint psBodyDomain 32).storeUint h 256).storeUint b 256).endCell

structure ParsedPublish where
  kind : Nat
  keyArg : Nat
  shardSeq : Nat
  header : Cell
  body : Cell
  publisher : Option RawAddress

/-- The part of `parsePublicPublish` after the envelope. -/
def parseInner (inner : Cell) (publisher : Option RawAddress) : Option ParsedPublish :=
  let r : Capsule.CellReader := .ofCell inner
  if r.remaining < 32 + 8 + 256 + 32 then none else
  let (op, r) := r.loadUint 32
  if op ≠ PublicPublish.opcode then none else
  let (kind, r) := r.loadUint 8
  let (keyArg, r) := r.loadUint 256
  let (shardSeq, r) := r.loadUint 32
  if r.refs.length < 2 then none else do
  let (header, r) := r.loadRef
  let (body, _) := r.loadRef
  let header ← header
  let body ← body
  return { kind, keyArg, shardSeq, header, body, publisher }

def parsePublicPublish (bodyCell : Option Cell) : Option ParsedPublish := do
  let bodyCell ← bodyCell
  match Capsule.parseVaultPublishEnvelope bodyCell with
  | some envelope => parseInner envelope.record (some ⟨envelope.workchain, envelope.account⟩)
  | none => parseInner bodyCell none

/-- A message as `readMessagesWithSource` returns it. -/
structure SourcedMessage where
  bodyCell : Option Cell
  source : Option RawAddress
  createdLt : Option Nat

structure PublicPost where
  entryId : Int
  createdAt : Nat
  publisher : RawAddress
  header : Cell
  body : Cell
  hidden : Bool
  lt : Option Nat

/-- The body of the loop over the rows. -/
def noteRow (commitToRow : OrdMap Nat PublicRow) (r : PublicRow) : OrdMap Nat PublicRow :=
  match commitToRow.get r.bodyCommit with
  | none => commitToRow.set r.bodyCommit r
  | some prev => if r.entryId < prev.entryId then commitToRow.set r.bodyCommit r else commitToRow

def commitToRow (rows : List PublicRow) : OrdMap Nat PublicRow := rows.foldl noteRow .empty

/-- The variables of the loop over the messages. -/
structure Matching where
  out : List PublicPost
  claimed : OrdSet Nat

/-- The body of the loop over the messages. -/
def matchMessage (rows : OrdMap Nat PublicRow) (state : Matching) (message : SourcedMessage) :
    Matching :=
  match parsePublicPublish message.bodyCell with
  | none => state
  | some parsed =>
    let commit := publicBodyCommit hashes parsed.header parsed.body
    match rows.get commit with
    | none => state
    | some row =>
      if commit ∈ state.claimed then state else
      match message.source with
      | none => state
      | some source =>
        let publisher := parsed.publisher.getD source
        if publisherTagOf publisher ≠ row.publisherTag then state else
        { claimed := state.claimed.add commit
          out := state.out ++ [{
            entryId := row.entryId
            createdAt := row.createdAt
            publisher
            header := parsed.header
            body := parsed.body
            hidden := row.hidden
            lt := message.createdLt }] }

def matchRows (rows : List PublicRow) (messages : List SourcedMessage) : List PublicPost :=
  (messages.foldl (matchMessage hashes (commitToRow rows)) ⟨[], .empty⟩).out

/-! ## The map of rows -/

variable {hashes} {rows : List PublicRow} {row : PublicRow} {commit : Nat}

/-- No row with the same commitment has a lower number. -/
def IsFirst (rows : List PublicRow) (row : PublicRow) : Prop :=
  row ∈ rows ∧ ∀ other ∈ rows, other.bodyCommit = row.bodyCommit → row.entryId ≤ other.entryId

/-- What the map has for a commitment. -/
def Notes (rows : List PublicRow) (commit : Nat) : Option PublicRow → Prop
  | none => ∀ row ∈ rows, row.bodyCommit ≠ commit
  | some row => row.bodyCommit = commit ∧ IsFirst rows row

theorem Notes.noteRow {map : OrdMap Nat PublicRow}
    (notes : ∀ commit, Notes rows commit (map.get commit)) (r : PublicRow) (commit : Nat) :
    Notes (rows ++ [r]) commit ((noteRow map r).get commit) := by
  have here := notes commit
  by_cases same : r.bodyCommit = commit
  · subst same
    rw [Public.noteRow]
    cases held : map.get r.bodyCommit with
    | none =>
      rw [held] at here
      rw [OrdMap.get_set_self]
      refine ⟨rfl, by simp, fun other listed equal => ?_⟩
      obtain listed | listed := List.mem_append.mp listed
      · exact absurd equal (here other listed)
      · rw [List.mem_singleton.mp listed]
    | some prev =>
      rw [held] at here
      obtain ⟨equal, listed, least⟩ := here
      dsimp only
      split
      · next lower =>
        rw [OrdMap.get_set_self]
        refine ⟨rfl, by simp, fun other listed' equal' => ?_⟩
        obtain listed' | listed' := List.mem_append.mp listed'
        · exact lower.le.trans (least other listed' (equal'.trans equal.symm))
        · rw [List.mem_singleton.mp listed']
      · next higher =>
        rw [held]
        refine ⟨equal, List.mem_append_left _ listed, fun other listed' equal' => ?_⟩
        obtain listed' | listed' := List.mem_append.mp listed'
        · exact least other listed' equal'
        · rw [List.mem_singleton.mp listed']
          exact not_lt.mp higher
  · have kept : (Public.noteRow map r).get commit = map.get commit := by
      rw [Public.noteRow]
      split
      · exact OrdMap.get_set_of_ne (Ne.symm same)
      · split
        · exact OrdMap.get_set_of_ne (Ne.symm same)
        · rfl
    rw [kept]
    cases held : map.get commit with
    | none =>
      rw [held] at here
      intro row listed
      obtain listed | listed := List.mem_append.mp listed
      · exact here row listed
      · rw [List.mem_singleton.mp listed]
        exact same
    | some prev =>
      rw [held] at here
      obtain ⟨equal, listed, least⟩ := here
      refine ⟨equal, List.mem_append_left _ listed, fun other listed' equal' => ?_⟩
      obtain listed' | listed' := List.mem_append.mp listed'
      · exact least other listed' equal'
      · rw [List.mem_singleton.mp listed'] at equal'
        exact absurd (equal'.trans equal) same

theorem notes_commitToRow (rows : List PublicRow) (commit : Nat) :
    Notes rows commit ((commitToRow rows).get commit) := by
  induction rows using List.reverseRecOn generalizing commit with
  | nil => exact fun row listed => nomatch listed
  | append_singleton rows r ih =>
    rw [commitToRow, List.foldl_append]
    exact Notes.noteRow ih r commit

theorem commitToRow_eq_some_iff (distinct : (rows.map PublicRow.entryId).Nodup) :
    (commitToRow rows).get row.bodyCommit = some row ↔ IsFirst rows row := by
  have notes := notes_commitToRow rows row.bodyCommit
  constructor
  · intro held
    rw [held] at notes
    exact notes.2
  · rintro ⟨listed, least⟩
    cases held : (commitToRow rows).get row.bodyCommit with
    | none =>
      rw [held] at notes
      exact absurd rfl (notes row listed)
    | some first =>
      rw [held] at notes
      obtain ⟨equal, listed', least'⟩ := notes
      have same := le_antisymm (least' row listed equal.symm) (least first listed' equal)
      rw [List.inj_on_of_nodup_map distinct listed' listed same]

/-! ## The loop over the messages -/

/-- The post stands for the row. -/
structure Stands (hashes : Hashes) (row : PublicRow) (post : PublicPost) : Prop where
  entryId : post.entryId = row.entryId
  createdAt : post.createdAt = row.createdAt
  hidden : post.hidden = row.hidden
  commit : publicBodyCommit hashes post.header post.body = row.bodyCommit
  tag : publisherTagOf post.publisher = row.publisherTag

/-- What holds of the posts at any point of the loop. -/
structure Matched (hashes : Hashes) (rows : OrdMap Nat PublicRow) (state : Matching) : Prop where
  stands : ∀ post ∈ state.out, ∃ row, rows.get row.bodyCommit = some row ∧ Stands hashes row post
  claims : ∀ commit, commit ∈ state.claimed ↔
    ∃ post ∈ state.out, publicBodyCommit hashes post.header post.body = commit
  once : (state.out.map fun post => publicBodyCommit hashes post.header post.body).Nodup

variable {state : Matching} {message : SourcedMessage} {map : OrdMap Nat PublicRow}

/-- What a message can do: its row takes a post if it has none yet. -/
theorem matchMessage_cases :
    matchMessage hashes map state message = state ∨
    ∃ parsed row source,
      parsePublicPublish message.bodyCell = some parsed ∧
      map.get (publicBodyCommit hashes parsed.header parsed.body) = some row ∧
      publicBodyCommit hashes parsed.header parsed.body ∉ state.claimed ∧
      message.source = some source ∧
      publisherTagOf (parsed.publisher.getD source) = row.publisherTag ∧
      matchMessage hashes map state message =
        { claimed := state.claimed.add (publicBodyCommit hashes parsed.header parsed.body)
          out := state.out ++ [⟨row.entryId, row.createdAt, parsed.publisher.getD source,
            parsed.header, parsed.body, row.hidden, message.createdLt⟩] } := by
  rw [matchMessage]
  cases read : parsePublicPublish message.bodyCell with
  | none => exact .inl rfl
  | some parsed =>
    dsimp only
    cases held : map.get (publicBodyCommit hashes parsed.header parsed.body) with
    | none => exact .inl rfl
    | some row =>
      dsimp only
      split
      · exact .inl rfl
      · next free =>
        cases known : message.source with
        | none => exact .inl rfl
        | some source =>
          dsimp only
          split
          · exact .inl rfl
          · next same =>
            exact .inr ⟨parsed, row, source, rfl, held, free, rfl, not_not.mp same, rfl⟩

namespace Matched

theorem step (matched : Matched hashes map state)
    (notes : ∀ commit row, map.get commit = some row → row.bodyCommit = commit)
    (message : SourcedMessage) : Matched hashes map (matchMessage hashes map state message) := by
  obtain same | ⟨parsed, row, source, -, held, free, -, tag, same⟩ :=
    @matchMessage_cases hashes state message map
  · rw [same]
    exact matched
  have commit := notes _ row held
  rw [same]
  refine ⟨fun post listed => ?_, fun commit' => ?_, ?_⟩
  · obtain listed | listed := List.mem_append.mp listed
    · exact matched.stands post listed
    · rw [List.mem_singleton.mp listed]
      exact ⟨row, commit ▸ held, rfl, rfl, rfl, commit.symm, tag⟩
  · rw [OrdSet.mem_add, matched.claims]
    simp only [List.mem_append, List.mem_singleton, or_and_right, exists_or, exists_eq_left]
    exact or_congr Iff.rfl eq_comm
  · rw [List.map_append, List.map_singleton, List.nodup_append]
    refine ⟨matched.once, List.nodup_singleton _, ?_⟩
    rintro commit' listed _ single rfl
    obtain rfl := List.mem_singleton.mp single
    obtain ⟨post, member, equal⟩ := List.mem_map.mp listed
    exact free ((matched.claims _).mpr ⟨post, member, equal⟩)

theorem foldl (matched : Matched hashes map state)
    (notes : ∀ commit row, map.get commit = some row → row.bodyCommit = commit)
    (messages : List SourcedMessage) :
    Matched hashes map (messages.foldl (matchMessage hashes map) state) := by
  induction messages generalizing state with
  | nil => exact matched
  | cons message messages ih => exact ih (matched.step notes message)

end Matched

/-- A commitment stays claimed. -/
theorem claimed_mono (messages : List SourcedMessage) (held : commit ∈ state.claimed) :
    commit ∈ (messages.foldl (matchMessage hashes map) state).claimed := by
  induction messages generalizing state with
  | nil => exact held
  | cons message messages ih =>
    refine ih ?_
    obtain same | ⟨parsed, row, source, -, -, -, -, -, same⟩ :=
      @matchMessage_cases hashes state message map
    · rw [same]
      exact held
    · rw [same]
      exact OrdSet.mem_add.mpr (.inl held)

/-- The message would give the row a post. -/
structure Fits (hashes : Hashes) (message : SourcedMessage) (row : PublicRow) : Prop where
  fits : ∃ parsed source, parsePublicPublish message.bodyCell = some parsed ∧
    publicBodyCommit hashes parsed.header parsed.body = row.bodyCommit ∧
    message.source = some source ∧
    publisherTagOf (parsed.publisher.getD source) = row.publisherTag

theorem Fits.claims (state : Matching) {messages : List SourcedMessage} (fits : Fits hashes message row)
    (listed : message ∈ messages) (held : map.get row.bodyCommit = some row) :
    row.bodyCommit ∈ (messages.foldl (matchMessage hashes map) state).claimed := by
  induction messages generalizing state with
  | nil => exact nomatch listed
  | cons other messages ih =>
    obtain rfl | listed := List.mem_cons.mp listed
    · refine claimed_mono messages ?_
      obtain ⟨parsed, source, read, commit, known, tag⟩ := fits.fits
      rw [matchMessage, read]
      dsimp only
      rw [commit, held]
      dsimp only
      split
      · next claimed => exact claimed
      · rw [known]
        dsimp only
        rw [if_neg (not_not.mpr tag)]
        exact OrdSet.mem_add.mpr (.inr rfl)
    · exact ih _ listed

/-! ## Every list of messages -/

theorem matched_start : Matched hashes map ⟨[], .empty⟩ where
  stands post listed := nomatch listed
  claims commit := by simp
  once := List.nodup_nil

theorem matched_matchRows (rows : List PublicRow) (messages : List SourcedMessage) :
    Matched hashes (commitToRow rows)
      (messages.foldl (matchMessage hashes (commitToRow rows)) ⟨[], .empty⟩) := by
  refine matched_start.foldl (fun commit row held => ?_) messages
  have notes := notes_commitToRow rows commit
  rw [held] at notes
  exact notes.1

theorem matchRows_stands (distinct : (rows.map PublicRow.entryId).Nodup)
    {messages : List SourcedMessage} {post : PublicPost}
    (listed : post ∈ matchRows hashes rows messages) :
    ∃ row, IsFirst rows row ∧ Stands hashes row post := by
  obtain ⟨row, held, stands⟩ := (matched_matchRows rows messages).stands post listed
  exact ⟨row, (commitToRow_eq_some_iff distinct).mp held, stands⟩

theorem matchRows_once (distinct : (rows.map PublicRow.entryId).Nodup)
    (messages : List SourcedMessage) :
    ((matchRows hashes rows messages).map PublicPost.entryId).Nodup := by
  have matched := @matched_matchRows hashes rows messages
  refine List.pairwise_map.mpr ((List.pairwise_map.mp matched.once).imp_of_mem ?_)
  intro post other listed listed' differ same
  obtain ⟨row, first, stands⟩ := matchRows_stands distinct listed
  obtain ⟨row', first', stands'⟩ := matchRows_stands distinct listed'
  have ids : row.entryId = row'.entryId :=
    stands.entryId.symm.trans (same.trans stands'.entryId)
  obtain rfl := List.inj_on_of_nodup_map distinct first.1 first'.1 ids
  exact differ (stands.commit.trans stands'.commit.symm)

theorem matchRows_finds (distinct : (rows.map PublicRow.entryId).Nodup)
    {messages : List SourcedMessage} (first : IsFirst rows row) (listed : message ∈ messages)
    (fits : Fits hashes message row) :
    ∃ post ∈ matchRows hashes rows messages, Stands hashes row post := by
  have held := (commitToRow_eq_some_iff distinct).mpr first
  have claimed := fits.claims ⟨[], .empty⟩ listed held
  obtain ⟨post, member, commit⟩ := ((matched_matchRows rows messages).claims _).mp claimed
  obtain ⟨row', held', stands⟩ := (matched_matchRows rows messages).stands post member
  have same : row'.bodyCommit = row.bodyCommit := stands.commit.symm.trans commit
  rw [same] at held'
  obtain rfl := Option.some.inj (held'.symm.trans held)
  exact ⟨post, member, stands⟩

/-! ## The shard -/

def rawOf (hashes : Hashes) (address : Address) : RawAddress :=
  ⟨address.workchain, hashes.account address⟩

/-- The contract reads the body as this message. -/
inductive Delivers (hashes : Hashes) (bodyCell : Cell) : ShardMessage → Prop
  | direct {m : PublicPublish} (read : PublicPublish.fromCell bodyCell = .ok m) :
      Delivers hashes bodyCell (.publicPublish m)
  | vault {m : VaultPublish} (read : Capsule.ShardMessage.ofCell bodyCell =
        .ok (.vaultPublish ⟨m.feeMemo, Capsule.addressBits hashes m.payer, m.record⟩)) :
      Delivers hashes bodyCell (.vaultPublish m)

/-- The message of the list is the delivery, and has its source. -/
structure MessageOf (hashes : Hashes) (d : Delivery ShardMessage) (message : SourcedMessage) :
    Prop where
  body : ∃ bodyCell, message.bodyCell = some bodyCell ∧ Delivers hashes bodyCell d.message
  source : message.source = some (rawOf hashes d.ctx.sender)

/-- The delivery was accepted, and the row has what it published. -/
structure Wrote (hashes : Hashes) (d : Delivery ShardMessage) (row : PublicRow) : Prop where
  accepted : ∃ (before after : PublicShard) (actions : List ShardAction),
    before.receive hashes d.ctx d.message = .ok (after, actions)
  published : ∃ p publisher, Publishes d.ctx d.message p publisher ∧
    row.bodyCommit = PublicShard.bodyCommit hashes p.header p.body ∧
    row.publisherTag = PublicShard.publisherTag hashes publisher

theorem parseInner_of_fromCell {inner : Cell} {p : PublicPublish} (publisher : Option RawAddress)
    (read : PublicPublish.fromCell inner = .ok p) :
    parseInner inner publisher =
      some ⟨p.kind, p.keyArg, p.shardSeq, p.header, p.body, publisher⟩ := by
  simp only [PublicPublish.fromCell, bind_eq_ok, expect_eq_ok, throwUnless_eq_ok, pure_eq_ok,
    Prod.exists] at read
  obtain ⟨op, s0, load0, _, opcode, kind, s1, load1, keyArg, s2, load2, shardSeq, s3, load3, header,
    s4, load4, body, s5, load5, rfl⟩ := read
  obtain ⟨long0, -, rest0⟩ := Capsule.loadUint_eq_some.mp load0
  obtain ⟨long1, -, rest1⟩ := Capsule.loadUint_eq_some.mp load1
  obtain ⟨long2, -, rest2⟩ := Capsule.loadUint_eq_some.mp load2
  obtain ⟨long3, -, rest3⟩ := Capsule.loadUint_eq_some.mp load3
  obtain ⟨refs4, -⟩ := Capsule.loadRef_eq_some.mp load4
  obtain ⟨refs5, -⟩ := Capsule.loadRef_eq_some.mp load5
  have enough : ¬Capsule.CellReader.remaining (.ofCell inner) < 32 + 8 + 256 + 32 := by
    change ¬(Slice.ofCell inner).bits.length < 32 + 8 + 256 + 32
    rw [rest2] at long3
    rw [rest1] at long2 long3
    rw [rest0] at long1 long2 long3
    simp only [List.length_drop] at long1 long2 long3
    omega
  have present : ¬s3.refs.length < 2 := by
    rw [refs4, refs5]
    simp
  rw [parseInner]
  simp only [enough, if_false, Capsule.reader_loadUint load0, opcode, ne_eq, not_true_eq_false,
    Capsule.reader_loadUint load1, Capsule.reader_loadUint load2, Capsule.reader_loadUint load3,
    present, Capsule.reader_loadRef load4, Capsule.reader_loadRef load5]
  rfl

theorem no_envelope {bodyCell : Cell} {p : PublicPublish}
    (read : PublicPublish.fromCell bodyCell = .ok p) :
    Capsule.parseVaultPublishEnvelope bodyCell = none := by
  simp only [PublicPublish.fromCell, bind_eq_ok, expect_eq_ok, throwUnless_eq_ok,
    Prod.exists] at read
  obtain ⟨op, s0, load0, _, rfl, -⟩ := read
  rw [Capsule.parseVaultPublishEnvelope]
  dsimp only
  split
  · rfl
  · have other : (Capsule.CellReader.loadUint (.ofCell bodyCell) 32).1 =
        PublicPublish.opcode := by
      rw [Capsule.reader_loadUint load0]
    rw [if_pos]
    rw [other]
    decide

/-- What the reader makes of a message that was accepted. -/
theorem Delivers.parse (bounded : ∀ address, hashes.account address < 2 ^ 256) {bodyCell : Cell}
    {ctx : Context} {message : ShardMessage} (delivers : Delivers hashes bodyCell message)
    {before after : PublicShard} {actions : List ShardAction}
    (accepted : before.receive hashes ctx message = .ok (after, actions))
    {p : PublicPublish} {publisher : Address} (publishes : Publishes ctx message p publisher) :
    ∃ parsed, parsePublicPublish (some bodyCell) = some parsed ∧ parsed.header = p.header ∧
      parsed.body = p.body ∧
      publisherTagOf (parsed.publisher.getD (rawOf hashes ctx.sender)) =
        PublicShard.publisherTag hashes publisher := by
  cases delivers with
  | direct read =>
    cases publishes
    refine ⟨⟨p.kind, p.keyArg, p.shardSeq, p.header, p.body, none⟩, ?_, rfl, rfl, rfl⟩
    rw [parsePublicPublish, Option.bind_eq_bind, Option.bind_some, no_envelope read]
    exact parseInner_of_fromCell none read
  | vault read =>
    cases publishes with
    | vault sender inner post =>
      rename_i m
      have basechain : m.payer.isBasechain := by
        rw [PublicShard.receive, PublicShard.receiveVaultPublish] at accepted
        simp only [throwUnless_bind_eq_ok] at accepted
        exact accepted.2.1
      have envelope := Capsule.parseEnvelope_of_load read
        (Capsule.top_addressBits basechain)
      have account : bitsUint ((Capsule.addressBits hashes m.payer).drop 11) =
          hashes.account m.payer := by
        rw [Capsule.addressBits_basechain basechain, List.drop_left' (by simp),
          bitsUint_uintBits (bounded m.payer)]
      refine ⟨⟨p.kind, p.keyArg, p.shardSeq, p.header, p.body,
        some ⟨0, hashes.account m.payer⟩⟩, ?_, rfl, rfl, rfl⟩
      rw [parsePublicPublish, Option.bind_eq_bind, Option.bind_some, envelope, account]
      exact parseInner_of_fromCell _ inner

theorem MessageOf.fits (bounded : ∀ address, hashes.account address < 2 ^ 256)
    {d : Delivery ShardMessage} (sent : MessageOf hashes d message) (wrote : Wrote hashes d row) :
    Fits hashes message row := by
  obtain ⟨bodyCell, body, delivers⟩ := sent.body
  obtain ⟨before, after, actions, accepted⟩ := wrote.accepted
  obtain ⟨p, publisher, publishes, commit, tag⟩ := wrote.published
  obtain ⟨parsed, read, header, parsedBody, named⟩ := delivers.parse bounded accepted publishes
  refine ⟨parsed, rawOf hashes d.ctx.sender, body ▸ read, ?_, sent.source, named.trans tag.symm⟩
  rw [header, parsedBody, commit]
  rfl

/-! ## Runs -/

variable {s t : PublicShard} {partitionKey epochTag : Nat}
variable {deliveries : List (Delivery ShardMessage)}

/-- The entry was published by one of the deliveries, which was accepted. -/
def PublishedIn (hashes : Hashes) (deliveries : List (Delivery ShardMessage)) (e : PublicEntry) :
    Prop :=
  ∃ d ∈ deliveries, (∃ (before after : PublicShard) (actions : List ShardAction),
      before.receive hashes d.ctx d.message = .ok (after, actions)) ∧
    ∃ p, Publishes d.ctx d.message p e.publisher ∧
      e.bodyCommit = PublicShard.bodyCommit hashes p.header p.body

/-- An entry after a message was there before it, flags apart, or the message published it. -/
theorem entry_after {ctx : Context} {message : ShardMessage}
    (effect : Effect hashes s ctx message t) {id : Nat} {e : PublicEntry}
    (found : t.entries.get id = some e) :
    (∃ e', s.entries.get id = some e' ∧ e'.publisher = e.publisher ∧
      e'.bodyCommit = e.bodyCommit) ∨
    ∃ p, Publishes ctx message p e.publisher ∧
      e.bodyCommit = PublicShard.bodyCommit hashes p.header p.body := by
  cases effect with
  | append publishes _ _ _ =>
    rw [PublicShard.appendEntry, Dict.get_set] at found
    split at found
    · cases found
      exact .inr ⟨_, publishes, rfl⟩
    · exact .inl ⟨e, found, rfl, rfl⟩
  | overwrite publishes _ _ _ _ =>
    rw [Dict.get_set] at found
    split at found
    · cases found
      exact .inr ⟨_, publishes, rfl⟩
    · exact .inl ⟨e, found, rfl, rfl⟩
  | retire _ => cases found
  | setHidden listed set =>
    rw [(PublicShard.setHidden_flagSet set).entries] at found
    split at found
    · exact .inl ⟨e, found, rfl, rfl⟩
    · rw [Dict.get_set] at found
      split at found
      · next same =>
        subst same
        cases found
        exact .inl ⟨_, listed, rfl, rfl⟩
      · exact .inl ⟨e, found, rfl, rfl⟩
  | react _ _ _ => exact .inl ⟨e, found, rfl, rfl⟩
  | idle => exact .inl ⟨e, found, rfl, rfl⟩

theorem publishedIn_run (reached : run anyEvent (step hashes) s deliveries = some t) {id : Nat}
    {e : PublicEntry} (found : t.entries.get id = some e) :
    (∃ e', s.entries.get id = some e' ∧ e'.publisher = e.publisher ∧
      e'.bodyCommit = e.bodyCommit) ∨ PublishedIn hashes deliveries e := by
  induction deliveries generalizing s with
  | nil =>
    cases reached
    exact .inl ⟨e, found, rfl, rfl⟩
  | cons d deliveries ih =>
    obtain ⟨-, next, stepped, rest⟩ := run_cons.mp reached
    obtain ⟨e', held, publisher, commit⟩ | ⟨d', listed, published⟩ := ih rest
    · rw [HiddenIndex.step] at stepped
      split at stepped
      · cases stepped
        exact .inl ⟨e', held, publisher, commit⟩
      · next received =>
        cases stepped
        obtain ⟨e0, held0, publisher0, commit0⟩ | ⟨p, publishes, commit0⟩ :=
          entry_after (PublicShard.receive_effect received) held
        · exact .inl ⟨e0, held0, publisher0.trans publisher, commit0.trans commit⟩
        · exact .inr ⟨d, List.mem_cons_self, ⟨s, _, _, received⟩, p, publisher ▸ publishes,
            commit.symm.trans commit0⟩
    · exact .inr ⟨d', List.mem_cons_of_mem d listed, published⟩

/-- **Posts are attributed, and the first of each commitment is found.** A later row with the
commitment of an earlier one has no post. -/
theorem matchRows_attributes (width : ∀ cell, hashes.cell cell < 2 ^ 256)
    (bounded : ∀ address, hashes.account address < 2 ^ 256)
    (reached : run anyEvent (step hashes) (PublicShard.init partitionKey epochTag) deliveries =
      some s)
    (fromId maxCount : Int) {stack : List StackValue}
    (carries : CarriesPage stack (s.getPage hashes fromId maxCount)) :
    ∃ page, decodePublicPage stack = .ok page ∧
      (∀ row ∈ page.rows, ∃ d ∈ deliveries, Wrote hashes d row) ∧
      ∀ messages,
        (∀ post ∈ matchRows hashes page.rows messages, ∃ row, IsFirst page.rows row ∧
          post.entryId = row.entryId ∧
          publicBodyCommit hashes post.header post.body = row.bodyCommit ∧
          publisherTagOf post.publisher = row.publisherTag) ∧
        ((matchRows hashes page.rows messages).map PublicPost.entryId).Nodup ∧
        ∀ row, IsFirst page.rows row → ∀ d, Wrote hashes d row → ∀ message ∈ messages,
          MessageOf hashes d message →
          ∃ post ∈ matchRows hashes page.rows messages, post.entryId = row.entryId := by
  obtain ⟨rows, decoded, length, each⟩ := (filed_run width reached).pageReads fromId maxCount stack
    carries
  have inPage : ∀ {j : Nat} {row : PublicRow}, rows[j]? = some row →
      ∃ e, s.entries.get ((s.getPage hashes fromId maxCount).fromId + j) = some e ∧
        row = e.row hashes ((s.getPage hashes fromId maxCount).fromId + j) := by
    intro j row there
    obtain ⟨inside, -⟩ := List.getElem?_eq_some_iff.mp there
    obtain ⟨e, found, stands⟩ := each j (length ▸ inside)
    exact ⟨e, found, Option.some.inj (there.symm.trans stands)⟩
  have distinct : (rows.map PublicRow.entryId).Nodup := by
    refine List.pairwise_map.mpr (List.pairwise_iff_getElem.mpr fun i j early late before => ?_)
    obtain ⟨_, -, left⟩ := inPage (List.getElem?_eq_getElem early)
    obtain ⟨_, -, right⟩ := inPage (List.getElem?_eq_getElem late)
    rw [left, right]
    simp only [PublicEntry.row, ne_eq]
    omega
  refine ⟨_, decoded, fun row listed => ?_, fun messages => ⟨fun post listed => ?_, ?_, ?_⟩⟩
  · obtain ⟨j, there⟩ := List.mem_iff_getElem?.mp listed
    obtain ⟨e, found, rfl⟩ := inPage there
    obtain ⟨e', held, -⟩ | ⟨d, listed, accepted, p, publishes, commit⟩ :=
      publishedIn_run reached found
    · cases held
    · exact ⟨d, listed, accepted, p, e.publisher, publishes, commit, rfl⟩
  · obtain ⟨row, first, stands⟩ := matchRows_stands distinct listed
    exact ⟨row, first, stands.entryId, stands.commit, stands.tag⟩
  · exact matchRows_once distinct messages
  · intro row first d wrote message listed sent
    obtain ⟨post, listed, stands⟩ := matchRows_finds distinct first listed (sent.fits bounded wrote)
    exact ⟨post, listed, stands.entryId⟩

section Sample

/-- The number of bits of a cell, which differs for the cells of this section. -/
def copyHashes : Hashes where
  cell c := c.bits.length % 2 ^ 256
  account
    | .std _ hash => hash % 2 ^ 256
    | _ => 0

def copied : PublicPublish := Log.logPost psKindThread

def copiedBody : Cell :=
  .mk (uintBits 32 PublicPublish.opcode ++ (uintBits 8 psKindThread ++ (uintBits 256 0 ++
    (uintBits 32 0 ++ [])))) [.mk [] [], .mk [] []]

/-- Two accounts publish the same header and body in a thread. -/
def copyLog : List (Delivery ShardMessage) :=
  [Log.logDelivery (.std 0 5) (.publicPublish copied),
    Log.logDelivery (.std 0 6) (.publicPublish copied)]

def copyMessages : List SourcedMessage :=
  [⟨some copiedBody, some ⟨0, 5⟩, none⟩, ⟨some copiedBody, some ⟨0, 6⟩, none⟩]

def copyShard : PublicShard := PublicShard.init 320 (psKindThread <<< 32)

private def copyRowBytes (tag : Boc.Byte) : List Boc.Byte :=
  List.replicate 30 0 ++ [0x88, 0x00] ++ List.replicate 22 0 ++ [0x01, tag]

private def copyBag : Boc.Bag :=
  ⟨[⟨0x00 :: copyRowBytes 0x40 ++ copyRowBytes 0x80, 898, []⟩], 0, by decide, by decide⟩

def copyStack : List StackValue := [.bigint 0, .bigint 2, .bigint 2, .object copyBag]

/-- The cells that are hashed on the way: the header, which is the body too, what the commitment
hashes and what the partition key hashes. -/
def copiedCells : List Cell :=
  [copied.header,
    (((Builder.empty.storeUint psBodyDomain 32).storeUint (copyHashes.cell copied.header)
      256).storeUint (copyHashes.cell copied.body) 256).endCell,
    (((Builder.empty.storeUint psThreadDomain 32).storeUint copied.keyArg 256).storeUint
      copied.shardSeq 32).endCell]

def copyRows : List PublicRow := [⟨0, 544, 0, 5, false⟩, ⟨1, 544, 0, 6, false⟩]

theorem copy_decoded : decodePublicPage copyStack = .ok ⟨0, 2, 2, copyRows⟩ := by
  have known : (decodePublicPage copyStack).toOption.map
      (fun page => (page.fromId, page.count, page.entryCount, page.rows)) =
        some (0, 2, 2, copyRows) := by
    decide +kernel
  cases decoded : decodePublicPage copyStack with
  | error text =>
    rw [decoded] at known
    cases known
  | ok page =>
    obtain ⟨fromId, count, entryCount, rows⟩ := page
    rw [decoded] at known
    cases known
    rfl

theorem copy_reached : ∃ s,
    run anyEvent (step copyHashes) copyShard copyLog = some s ∧
    CarriesPage copyStack (s.getPage copyHashes 0 96) := by
  have known : (run anyEvent (step copyHashes) copyShard copyLog).map
      (fun s => (s.entryCount, (s.packRowChunk copyHashes 0 2).bits)) =
        some (2, (copyBag.cellAt 0).bits) := by
    decide +kernel
  obtain ⟨s, reached, known⟩ := Option.map_eq_some_iff.mp known
  obtain ⟨count, bits⟩ : s.entryCount = 2 ∧
      (s.packRowChunk copyHashes 0 2).bits = (copyBag.cellAt 0).bits := by
    simpa using known
  have cells : (s.getPage copyHashes 0 96).rows = .mk (copyBag.cellAt 0).bits [] := by
    have one : (s.getPage copyHashes 0 96).rows = (s.packRowChunk copyHashes 0 2).endCell := by
      simp [PublicShard.getPage, PublicShard.packRows, count, psPageCap, packRows, packTail,
        psPairsPerCell]
    rw [one, Builder.endCell, bits, packRowChunk_refs]
  have sized : s.getPage copyHashes 0 96 = ⟨0, 2, 2, (s.getPage copyHashes 0 96).rows⟩ := by
    simp [PublicShard.getPage, count, psPageCap]
  refine ⟨s, reached, ?_⟩
  rw [sized, cells]
  exact ⟨rfl, rfl, rfl, rfl, copyBag, rfl, rfl, trivial⟩

theorem copy_wrote {d : Delivery ShardMessage} (accepted :
      (copyShard.receive copyHashes d.ctx d.message).toOption.isSome = true) {publisher : Nat}
    (message : d.message = .publicPublish copied) (sender : d.ctx.sender = .std 0 publisher)
    (small : publisher < 2 ^ 128) (id : Nat) :
    Wrote copyHashes d ⟨id, 544, 0, publisher, false⟩ where
  accepted := by
    cases received : copyShard.receive copyHashes d.ctx d.message with
    | error code =>
      rw [received] at accepted
      cases accepted
    | ok result => exact ⟨copyShard, result.1, result.2, received⟩
  published := by
    have commit : PublicShard.bodyCommit copyHashes copied.header copied.body = 544 := by
      decide +kernel
    refine ⟨copied, .std 0 publisher, ?_, commit.symm, ?_⟩
    · rw [message, ← sender]
      exact .direct copied
    · change publisher = publisher % 2 ^ 256 % psPublisherTagMod
      rw [psPublisherTagMod]
      omega

theorem copied_read : PublicPublish.fromCell copiedBody = .ok copied := by
  rw [PublicPublish.fromCell, copiedBody, Slice.ofCell, Cell.bits, Cell.refs,
    Capsule.loadUint_uintBits (by decide), expect_some, ok_bind]
  dsimp only
  rw [throwUnless_pos rfl, ok_bind, Capsule.loadUint_uintBits (by decide), expect_some, ok_bind]
  dsimp only
  rw [Capsule.loadUint_uintBits (by decide), expect_some, ok_bind]
  dsimp only
  rw [Capsule.loadUint_uintBits (by decide), expect_some, ok_bind]
  rfl

theorem copy_bounded (address : Address) : copyHashes.account address < 2 ^ 256 := by
  cases address <;> first | exact Nat.mod_lt _ (by decide) | exact (by decide : 0 < 2 ^ 256)

theorem copy_sent {d : Delivery ShardMessage} {publisher : Nat} (small : publisher < 2 ^ 256)
    (message : d.message = .publicPublish copied) (sender : d.ctx.sender = .std 0 publisher) :
    MessageOf copyHashes d ⟨some copiedBody, some ⟨0, publisher⟩, none⟩ where
  body := ⟨copiedBody, rfl, message ▸ .direct copied_read⟩
  source := by
    rw [sender]
    change some (RawAddress.mk 0 publisher) = some ⟨0, publisher % 2 ^ 256⟩
    rw [Nat.mod_eq_of_lt small]

theorem matchRows_attributes_copied : ∃ page,
    decodePublicPage copyStack = .ok page ∧
    ∃ post ∈ matchRows copyHashes page.rows copyMessages, post.entryId = 0 := by
  obtain ⟨s, reached, carries⟩ := copy_reached
  obtain ⟨page, decoded, -, posts⟩ := matchRows_attributes
    (fun cell => Nat.mod_lt _ (by decide)) copy_bounded reached 0 96 carries
  obtain rfl := Except.ok.inj (copy_decoded.symm.trans decoded)
  refine ⟨_, decoded, ?_⟩
  exact (posts copyMessages).2.2 ⟨0, 544, 0, 5, false⟩ (by unfold IsFirst; decide)
    (Log.logDelivery (.std 0 5) (.publicPublish copied))
    (copy_wrote (by decide +kernel) rfl rfl (by decide) 0) _ List.mem_cons_self
    (copy_sent (by decide) rfl rfl)

/-- The copy's row has no post, though its message is in the list. -/
theorem copied_row_has_no_post :
    (copiedCells.map copyHashes.cell).Nodup ∧
    ∃ s, run anyEvent (step copyHashes) copyShard copyLog = some s ∧
      CarriesPage copyStack (s.getPage copyHashes 0 96) ∧
      decodePublicPage copyStack = .ok ⟨0, 2, 2, copyRows⟩ ∧
      (copyRows.Pairwise fun row other =>
        ¬(row.bodyCommit = other.bodyCommit ∧ row.publisherTag = other.publisherTag)) ∧
      ∃ row ∈ copyRows, ∃ d ∈ copyLog, Wrote copyHashes d row ∧
        ∃ message ∈ copyMessages, MessageOf copyHashes d message ∧
          ∀ post ∈ matchRows copyHashes copyRows copyMessages, post.entryId ≠ row.entryId := by
  obtain ⟨s, reached, carries⟩ := copy_reached
  refine ⟨by decide +kernel, s, reached, carries, copy_decoded, by decide, ⟨1, 544, 0, 6, false⟩,
    by decide, _, List.mem_cons_of_mem _ List.mem_cons_self,
    copy_wrote (by decide +kernel) rfl rfl (by decide) 1, _,
    List.mem_cons_of_mem _ List.mem_cons_self, copy_sent (by decide) rfl rfl, ?_⟩
  have known : (matchRows copyHashes copyRows copyMessages).map PublicPost.entryId = [0] := by
    decide +kernel
  intro post listed same
  have there : post.entryId ∈ (matchRows copyHashes copyRows copyMessages).map
      PublicPost.entryId := List.mem_map_of_mem listed
  rw [known, List.mem_singleton, same] at there
  exact absurd there (by decide)

end Sample

end Platho.Public
