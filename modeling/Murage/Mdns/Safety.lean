import Murage.Mdns.Messages

/-!
Owns when `handle` throws: the encoders against what the decoder lets through, and that it is
exactly on a query from another port than that of multicast DNS in which one question is answered
and one has a label that does not go back into a packet.

Does not own: the packets it answers rightly.
-/

namespace Murage.Mdns

open Murage.Library
open Murage.Library.Utf8 (Bytes)

/-! ## What the encoders take -/

def Succeeds {α : Type} (result : Except String α) : Prop := ∃ value, result = .ok value

theorem succeeds_bind {α β : Type} {first : Except String α} {next : α → Except String β} :
    Succeeds (first >>= next) ↔ ∃ value, first = .ok value ∧ Succeeds (next value) := by
  cases first with
  | error message => exact ⟨fun ⟨_, isOk⟩ => (nomatch isOk), fun ⟨_, isOk, _⟩ => (nomatch isOk)⟩
  | ok value =>
    constructor
    · intro succeeds
      exact ⟨value, rfl, succeeds⟩
    · rintro ⟨other, isOk, succeeds⟩
      obtain rfl := Except.ok.inj isOk
      exact succeeds

theorem succeeds_bind_of_forall {α β : Type} {first : Except String α} {next : α → Except String β}
    {rest : Prop} (same : ∀ value, first = .ok value → (Succeeds (next value) ↔ rest)) :
    Succeeds (first >>= next) ↔ Succeeds first ∧ rest := by
  rw [succeeds_bind]
  constructor
  · rintro ⟨value, isOk, succeeds⟩
    exact ⟨⟨value, isOk⟩, (same value isOk).mp succeeds⟩
  · rintro ⟨⟨value, isOk⟩, holds⟩
    exact ⟨value, isOk, (same value isOk).mpr holds⟩

theorem succeeds_pure {α : Type} (value : α) : Succeeds (pure value : Except String α) ↔ True :=
  ⟨fun _ => trivial, fun _ => ⟨value, rfl⟩⟩

theorem succeeds_map {α β : Type} {result : Except String α} {f : α → β} :
    Succeeds (result.map f) ↔ Succeeds result := by
  cases result with
  | error message => exact ⟨fun ⟨_, isOk⟩ => (nomatch isOk), fun ⟨_, isOk⟩ => (nomatch isOk)⟩
  | ok value => exact ⟨fun _ => ⟨value, rfl⟩, fun _ => ⟨f value, rfl⟩⟩

theorem succeeds_write {value : Nat} : Succeeds (writeUInt16BE value) ↔ value ≤ 0xFFFF := by
  unfold writeUInt16BE
  split_ifs with fits
  · exact ⟨fun _ => fits, fun _ => ⟨_, rfl⟩⟩
  · exact ⟨fun ⟨_, isOk⟩ => (nomatch isOk), fun small => absurd small fits⟩

def Overlong (name : Text) : Prop := ∃ label ∈ labelsOf name, 63 < (Utf8.encode label).length

theorem succeeds_encodeLabels {labels : List Text} :
    Succeeds (encodeLabels labels) ↔ ∀ label ∈ labels, (Utf8.encode label).length ≤ 63 := by
  induction labels with
  | nil => exact ⟨fun _ => nofun, fun _ => ⟨_, rfl⟩⟩
  | cons label rest ih =>
    unfold encodeLabels
    dsimp only
    rw [List.forall_mem_cons]
    split_ifs with isLong
    · exact ⟨fun ⟨_, isOk⟩ => (nomatch isOk), fun areShort => absurd areShort.1 (by omega)⟩
    · rw [succeeds_map, ih]
      exact ⟨fun areShort => ⟨by omega, areShort⟩, And.right⟩

theorem succeeds_encodeName {name : Text} : Succeeds (encodeName name) ↔ ¬Overlong name := by
  unfold encodeName Overlong
  rw [succeeds_encodeLabels]
  constructor
  · rintro areShort ⟨label, isLabel, isLong⟩
    exact absurd (areShort label isLabel) (Nat.not_le_of_lt isLong)
  · intro notLong label isLabel
    exact Nat.le_of_not_lt fun isLong => notLong ⟨label, isLabel, isLong⟩

theorem succeeds_encodeQuestions {questions : List Question}
    (areTypes : ∀ question ∈ questions, question.type ≤ 0xFFFF) :
    Succeeds (encodeQuestions questions) ↔ ∀ question ∈ questions, ¬Overlong question.name := by
  induction questions with
  | nil => exact ⟨fun _ => nofun, fun _ => ⟨_, rfl⟩⟩
  | cons question rest ih =>
    obtain ⟨isType, areLater⟩ := List.forall_mem_cons.mp areTypes
    unfold encodeQuestions
    rw [succeeds_bind_of_forall fun _ _ => succeeds_bind_of_forall fun _ _ =>
      succeeds_bind_of_forall fun _ _ => succeeds_bind_of_forall fun _ _ => succeeds_pure _]
    rw [succeeds_write, succeeds_write, succeeds_encodeName, ih areLater,
      List.forall_mem_cons]
    exact ⟨fun ⟨_, _, notLong, areShort, _⟩ => ⟨notLong, areShort⟩,
      fun ⟨notLong, areShort⟩ => ⟨isType, by decide, notLong, areShort, trivial⟩⟩

variable {builtins : Builtins}

theorem succeeds_encodeRecord {record : ResourceRecord} (ttl ttl' : Option Nat)
    (flush flush' : Bool) (succeeds : Succeeds (encodeRecord builtins record ttl flush)) :
    Succeeds (encodeRecord builtins record ttl' flush') := by
  unfold encodeRecord at succeeds ⊢
  obtain ⟨⟨rdata, kept⟩, isData, succeeds⟩ := succeeds_bind.mp succeeds
  obtain ⟨name, isName, succeeds⟩ := succeeds_bind.mp succeeds
  obtain ⟨type, isType, succeeds⟩ := succeeds_bind.mp succeeds
  obtain ⟨klass, isClass, succeeds⟩ := succeeds_bind.mp succeeds
  obtain ⟨length, isLength, succeeds⟩ := succeeds_bind.mp succeeds
  obtain ⟨other, isOther⟩ : Succeeds (writeUInt16BE (if flush' then CLASS_IN ||| FLUSH else CLASS_IN)) := by
    rw [succeeds_write]
    cases flush' <;> decide
  refine succeeds_bind.mpr ⟨_, isData, succeeds_bind.mpr ⟨_, isName, succeeds_bind.mpr ⟨_, isType, ?_⟩⟩⟩
  exact succeeds_bind.mpr ⟨_, isOther, succeeds_bind.mpr ⟨_, isLength, _, rfl⟩⟩

variable {records : List ResourceRecord}

theorem succeeds_encodeRecords {ttl : Option Nat} {legacy : Bool} :
    Succeeds (encodeRecords builtins ttl legacy records) ↔
      ∀ record ∈ records, Succeeds (encodeRecord builtins record ttl (mayFlush record legacy)) := by
  induction records with
  | nil => exact ⟨fun _ => nofun, fun _ => ⟨_, rfl⟩⟩
  | cons record rest ih =>
    unfold encodeRecords
    rw [succeeds_bind_of_forall fun _ _ => succeeds_bind_of_forall fun _ _ => succeeds_pure _,
      ih, List.forall_mem_cons, and_true]

theorem succeeds_encodeResponse {answers additionals : List ResourceRecord} {opts : ResponseOptions} :
    Succeeds (encodeResponse builtins answers additionals opts) ↔
      (opts.id ≤ 0xFFFF ∧ opts.questions.length ≤ 0xFFFF ∧ answers.length ≤ 0xFFFF ∧
        additionals.length ≤ 0xFFFF) ∧ Succeeds (encodeQuestions opts.questions) ∧
      Succeeds (encodeRecords builtins opts.ttl opts.legacy answers) ∧
      Succeeds (encodeRecords builtins opts.ttl opts.legacy additionals) := by
  unfold encodeResponse
  rw [succeeds_bind_of_forall fun _ _ => succeeds_bind_of_forall fun _ _ =>
    succeeds_bind_of_forall fun _ _ => succeeds_bind_of_forall fun _ _ =>
    succeeds_bind_of_forall fun _ _ => succeeds_bind_of_forall fun _ _ =>
    succeeds_bind_of_forall fun _ _ => succeeds_pure _]
  rw [succeeds_write, succeeds_write, succeeds_write, succeeds_write]
  tauto

/-! ## What the decoder lets through -/

theorem readQuestions_bounds {buf : Bytes} {count offset : Nat} {questions : List Question}
    (isRead : readQuestions buf count offset = some questions) :
    questions.length = count ∧ ∀ question ∈ questions, question.type ≤ 0xFFFF := by
  induction count generalizing offset questions with
  | zero =>
    obtain rfl := Option.some.inj isRead
    exact ⟨rfl, nofun⟩
  | succ count ih =>
    unfold readQuestions at isRead
    split at isRead
    · exact nomatch isRead
    · split_ifs at isRead
      · obtain ⟨later, isLater, rfl⟩ := Option.map_eq_some_iff.mp isRead
        obtain ⟨isLength, areTypes⟩ := ih isLater
        exact ⟨congrArg (· + 1) isLength, List.forall_mem_cons.mpr ⟨readUInt16BE_le _ _, areTypes⟩⟩

variable {message : DnsMessage}

theorem decodeMessage_bounds {buf : Bytes} (isMessage : decodeMessage buf = some message) :
    message.id ≤ 0xFFFF ∧ message.questions.length ≤ 0xFFFF ∧
      ∀ question ∈ message.questions, question.type ≤ 0xFFFF := by
  unfold decodeMessage at isMessage
  split_ifs at isMessage
  obtain ⟨questions, isRead, rfl⟩ := Option.map_eq_some_iff.mp isMessage
  obtain ⟨isLength, areTypes⟩ := readQuestions_bounds isRead
  refine ⟨readUInt16BE_le _ _, ?_, areTypes⟩
  show questions.length ≤ 0xFFFF
  rw [isLength]
  exact readUInt16BE_le _ _

/-! ## The records answered with -/

theorem mem_of_mem_dedupeFrom {seen : List Text} {record : ResourceRecord}
    (isIn : record ∈ dedupeFrom builtins seen records) :
    record ∈ records ∧ recordKey builtins record ∉ seen := by
  induction records generalizing seen with
  | nil => exact absurd isIn List.not_mem_nil
  | cons first rest ih =>
    unfold dedupeFrom at isIn
    split_ifs at isIn with isSeen
    · obtain ⟨isLater, isNew⟩ := ih isIn
      exact ⟨List.mem_cons_of_mem _ isLater, isNew⟩
    · rcases List.mem_cons.mp isIn with rfl | isLater
      · exact ⟨List.mem_cons_self, isSeen⟩
      · obtain ⟨isLater, isNew⟩ := ih isLater
        exact ⟨List.mem_cons_of_mem _ isLater, fun known => isNew (List.mem_cons_of_mem _ known)⟩

theorem nodup_dedupeFrom (builtins : Builtins) (records : List ResourceRecord) :
    ∀ seen, (dedupeFrom builtins seen records).Nodup := by
  induction records with
  | nil => exact fun _ => List.nodup_nil
  | cons first rest ih =>
    intro seen
    unfold dedupeFrom
    split_ifs
    · exact ih seen
    · refine List.nodup_cons.mpr ⟨fun isLater => ?_, ih _⟩
      exact (mem_of_mem_dedupeFrom isLater).2 List.mem_cons_self

theorem dedupe_eq_nil :
    dedupe builtins records [] = [] ↔ records = [] := by
  unfold dedupe
  cases records with
  | nil => exact ⟨fun _ => rfl, fun _ => rfl⟩
  | cons first rest =>
    have notSeen : recordKey builtins first ∉ ([] : List ResourceRecord).map (recordKey builtins) :=
      List.not_mem_nil
    unfold dedupeFrom
    rw [if_neg notSeen]
    exact ⟨(nomatch ·), (nomatch ·)⟩

variable {service : ServiceInfo}

theorem answerTo_subset {question : Question} :
    (∀ record ∈ (answerTo builtins service question).1, record ∈ service.records) ∧
      ∀ record ∈ (answerTo builtins service question).2, record ∈ service.records := by
  have isSrv : service.srv ∈ service.records := by simp [ServiceInfo.records]
  have isTxt : service.txtRecord ∈ service.records := by simp [ServiceInfo.records]
  have isAddress : ∀ record ∈ service.addressRecords, record ∈ service.records := by
    intro record isAddress
    simp [ServiceInfo.records, isAddress]
  unfold answerTo
  dsimp only
  split
  · refine ⟨fun record isAnswer => ?_, nofun⟩
    rw [List.mem_singleton.mp isAnswer]
    simp [ServiceInfo.records]
  split
  · refine ⟨fun record isAnswer => ?_, fun record isAdditional => ?_⟩
    · rw [List.mem_singleton.mp isAnswer]
      simp [ServiceInfo.records]
    · rcases List.mem_cons.mp isAdditional with rfl | isAdditional
      · exact isSrv
      rcases List.mem_cons.mp isAdditional with rfl | isAdditional
      · exact isTxt
      · exact isAddress record isAdditional
  split
  · refine ⟨fun record isAnswer => ?_, fun record isAdditional => ?_⟩
    · rcases List.mem_append.mp isAnswer with isAnswer | isAnswer
      · split_ifs at isAnswer
        · exact List.mem_singleton.mp isAnswer ▸ isSrv
        · exact absurd isAnswer List.not_mem_nil
      · split_ifs at isAnswer
        · exact List.mem_singleton.mp isAnswer ▸ isTxt
        · exact absurd isAnswer List.not_mem_nil
    · dsimp only at isAdditional
      split_ifs at isAdditional
      · exact isAddress record isAdditional
      · exact absurd isAdditional List.not_mem_nil
  split
  · exact ⟨isAddress, nofun⟩
  · exact ⟨nofun, nofun⟩

theorem answersFor_subset (builtins : Builtins) (service : ServiceInfo) (message : DnsMessage) :
    (∀ record ∈ (answersFor builtins message service).answers, record ∈ service.records) ∧
      ∀ record ∈ (answersFor builtins message service).additionals, record ∈ service.records := by
  unfold answersFor
  split_ifs
  · exact ⟨nofun, nofun⟩
  · refine ⟨fun record isIn => ?_, fun record isIn => ?_⟩
    · obtain ⟨question, _, isAnswer⟩ := List.mem_flatMap.mp (mem_of_mem_dedupeFrom isIn).1
      exact answerTo_subset.1 record isAnswer
    · obtain ⟨question, _, isAdditional⟩ := List.mem_flatMap.mp (mem_of_mem_dedupeFrom isIn).1
      exact answerTo_subset.2 record isAdditional

theorem answersFor_length (builtins : Builtins) (service : ServiceInfo) (message : DnsMessage) :
    (answersFor builtins message service).answers.length ≤ service.records.length ∧
      (answersFor builtins message service).additionals.length ≤ service.records.length := by
  obtain ⟨inAnswers, inAdditionals⟩ := answersFor_subset builtins service message
  have distinct : (answersFor builtins message service).answers.Nodup ∧
      (answersFor builtins message service).additionals.Nodup := by
    unfold answersFor
    split_ifs
    · exact ⟨List.nodup_nil, List.nodup_nil⟩
    · exact ⟨nodup_dedupeFrom _ _ _, nodup_dedupeFrom _ _ _⟩
  exact ⟨(distinct.1.subperm inAnswers).length_le, (distinct.2.subperm inAdditionals).length_le⟩

/-- The records of the service can all be sent in one response. -/
def ServiceEncodes (builtins : Builtins) (service : ServiceInfo) : Prop :=
  Succeeds (encodeResponse builtins service.records [] {})

/-- One question of the query is answered, the questions are to be sent back, and one of them has
a label that takes more than sixty-three bytes. -/
structure Unechoable (builtins : Builtins) (service : ServiceInfo) (message : DnsMessage)
    (fromPort : Nat) : Prop where
  isQuery : message.response = false
  isLegacy : fromPort ≠ MDNS_PORT
  isAnswered : ∃ question ∈ message.questions, (answerTo builtins service question).1 ≠ []
  isOverlong : ∃ question ∈ message.questions, Overlong question.name

theorem answersFor_ne_nil :
    (answersFor builtins message service).answers ≠ [] ↔ message.response = false ∧
      ∃ question ∈ message.questions, (answerTo builtins service question).1 ≠ [] := by
  unfold answersFor
  split_ifs with isResponse
  · exact ⟨fun hasAnswers => absurd rfl hasAnswers, fun isQuery => by simp [isResponse] at isQuery⟩
  · rw [Ne, dedupe_eq_nil, List.flatMap_eq_nil_iff, Bool.not_eq_true] at *
    push Not
    exact ⟨fun isAnswered => ⟨isResponse, isAnswered⟩, And.right⟩

theorem questions_ne_nil (hasAnswers : (answersFor builtins message service).answers ≠ []) :
    message.questions ≠ [] := by
  obtain ⟨-, question, isQuestion, -⟩ := answersFor_ne_nil.mp hasAnswers
  exact List.ne_nil_of_mem isQuestion

theorem succeeds_answer (encodes : ServiceEncodes builtins service)
    (areOwn : ∀ record ∈ records, record ∈ service.records) (ttl : Option Nat) (legacy : Bool) :
    Succeeds (encodeRecords builtins ttl legacy records) := by
  have areEncoded := succeeds_encodeRecords.mp (succeeds_encodeResponse.mp encodes).2.2.1
  exact succeeds_encodeRecords.mpr fun record isRecord =>
    succeeds_encodeRecord _ _ _ _ (areEncoded record (areOwn record isRecord))

theorem succeeds_response {buf : Bytes} (encodes : ServiceEncodes builtins service)
    (isMessage : decodeMessage buf = some message) (fromPort : Nat) :
    Succeeds (encodeResponse builtins (answersFor builtins message service).answers
        (answersFor builtins message service).additionals (optionsFor message fromPort)) ↔
      (fromPort ≠ MDNS_PORT → ∀ question ∈ message.questions, ¬Overlong question.name) := by
  obtain ⟨isId, isCount, areTypes⟩ := decodeMessage_bounds isMessage
  obtain ⟨ownAnswers, ownAdditionals⟩ := answersFor_subset builtins service message
  obtain ⟨fewAnswers, fewAdditionals⟩ := answersFor_length builtins service message
  have isRoom := (succeeds_encodeResponse.mp encodes).1.2.2.1
  have answersFit := Nat.le_trans fewAnswers isRoom
  have additionalsFit := Nat.le_trans fewAdditionals isRoom
  rw [succeeds_encodeResponse]
  unfold optionsFor
  split_ifs with isLegacy
  · dsimp only
    rw [succeeds_encodeQuestions areTypes]
    exact ⟨fun succeeds _ => succeeds.2.1, fun areShort => ⟨⟨isId, isCount, answersFit, additionalsFit⟩,
      areShort isLegacy, succeeds_answer encodes ownAnswers _ _, succeeds_answer encodes ownAdditionals _ _⟩⟩
  · exact ⟨fun _ legacy => absurd legacy isLegacy, fun _ => ⟨⟨by decide, by decide, answersFit, additionalsFit⟩,
      ⟨_, rfl⟩, succeeds_answer encodes ownAnswers _ _, succeeds_answer encodes ownAdditionals _ _⟩⟩

/-- **When `handle` returns.** For a service whose own records encode, a packet makes `handle`
throw exactly when it comes from the link, from a port other than 5353, and is a query in which
one question is answered and one has a label that takes more than sixty-three bytes when its
text is encoded again. -/
theorem handle_returns_iff (builtins : Builtins) (interfaces : List Interface) (service : ServiceInfo)
    (buf : Bytes) (source : Text) (fromPort : Nat) (encodes : ServiceEncodes builtins service) :
    Succeeds (handle builtins interfaces service buf source fromPort) ↔
      ¬(isOnLink source interfaces = true ∧ ∃ message, decodeMessage buf = some message ∧
        Unechoable builtins service message fromPort) := by
  unfold handle
  split_ifs with offLink
  · exact ⟨fun _ unechoable => by simp [offLink] at unechoable, fun _ => ⟨_, rfl⟩⟩
  rw [Bool.not_eq_false] at offLink
  cases isMessage : decodeMessage buf with
  | none =>
    refine ⟨?_, fun _ => ⟨_, rfl⟩⟩
    rintro - ⟨-, message, isSome, -⟩
    exact nomatch isSome
  | some message =>
    have sameMessage : (isOnLink source interfaces = true ∧ ∃ other, some message = some other ∧
        Unechoable builtins service other fromPort) ↔ Unechoable builtins service message fromPort := by
      constructor
      · rintro ⟨-, other, isSame, unechoable⟩
        exact Option.some.inj isSame ▸ unechoable
      · intro unechoable
        exact ⟨offLink, message, rfl, unechoable⟩
    rw [sameMessage]
    dsimp only
    by_cases hasAnswers : (answersFor builtins message service).answers = []
    · have notAnswered : ¬Unechoable builtins service message fromPort := fun unechoable =>
        answersFor_ne_nil.mpr ⟨unechoable.isQuery, unechoable.isAnswered⟩ hasAnswers
      refine ⟨fun _ => notAnswered, fun _ => ?_⟩
      split_ifs
      · exact ⟨_, rfl⟩
      · exact ⟨_, rfl⟩
    · obtain ⟨isQuery, isAnswered⟩ := answersFor_ne_nil.mp hasAnswers
      have isAsked : ¬(message.response = true ∨ message.questions = []) := by
        rintro (isResponse | isEmpty)
        · rw [isQuery] at isResponse
          exact nomatch isResponse
        · exact questions_ne_nil hasAnswers isEmpty
      rw [if_neg isAsked, if_neg hasAnswers, succeeds_map, succeeds_response encodes isMessage fromPort]
      constructor
      · rintro areShort ⟨-, isLegacy, -, question, isQuestion, isOverlong⟩
        exact areShort isLegacy question isQuestion isOverlong
      · intro echoable isLegacy question isQuestion isOverlong
        exact echoable ⟨isQuery, isLegacy, isAnswered, question, isQuestion, isOverlong⟩

/-! ## A packet that makes it throw -/

/-- The built-ins as they answer on the texts below. -/
def asciiBuiltins : Builtins where
  toLowerCase := List.map Char.toLower
  toNumber := fun text => if text ≠ [] ∧ text.all Char.isDigit then
      some (text.foldl (fun value digit => value * 10 + (digit.toNat - 48)) 0) else none
  stringify := fun data => match data with
    | .address data => ('"' :: data) ++ ['"']
    | .pointer data => ('"' :: data) ++ ['"']
    | .text data => ('[' :: [','].intercalate (data.map fun entry => ('"' :: entry) ++ ['"'])) ++ [']']
    | .service port target =>
      "\x7b\"port\":".toList ++ (toString port).toList ++ ",\"target\":\"".toList ++ target ++ "\"\x7d".toList

def deskService : ServiceInfo where
  name := "Desk".toList
  type := "_murage._tcp".toList
  port := 4821
  host := "murage-1a2b3c4d.local".toList
  addresses := ["192.168.1.5".toList]
  txt := []

def deskInterfaces : List Interface :=
  [{ isIPv4 := true
     address := "192.168.1.5".toList
     netmask := "255.255.255.0".toList }]

/-- Two questions: the enumeration of service types, and one whose label is twenty-two bytes that
are no UTF-8, each of which takes three bytes when encoded again. -/
def growingQuery : Bytes :=
  [0, 7, 0, 0, 0, 2, 0, 0, 0, 0, 0, 0] ++
    (9 :: Utf8.encode "_services".toList) ++ (7 :: Utf8.encode "_dns-sd".toList) ++
    (4 :: Utf8.encode "_udp".toList) ++ (5 :: Utf8.encode "local".toList) ++ [0, 0, 12, 0, 1] ++
    (22 :: List.replicate 22 0xFF) ++ [0, 0, 1, 0, 1]

def isError {α : Type} (result : Except String α) : Bool :=
  match result with
  | .ok _ => false
  | .error _ => true

theorem succeeds_iff {α : Type} {result : Except String α} : Succeeds result ↔ isError result = false := by
  cases result with
  | ok value => exact ⟨fun _ => rfl, fun _ => ⟨value, rfl⟩⟩
  | error message => exact ⟨fun ⟨_, isOk⟩ => (nomatch isOk), fun isFalse => (nomatch isFalse)⟩

theorem deskService_encodes : ServiceEncodes asciiBuiltins deskService := succeeds_iff.mpr (by decide)

/-- The growing query comes from the link and makes `handle` throw, for a service whose own records
encode. -/
theorem handle_throws_on_growing_label :
    ServiceEncodes asciiBuiltins deskService ∧
      isOnLink "192.168.1.7".toList deskInterfaces = true ∧
      (decodeMessage growingQuery).isSome ∧
      ¬Succeeds (handle asciiBuiltins deskInterfaces deskService growingQuery "192.168.1.7".toList 40000) := by
  refine ⟨deskService_encodes, by decide, by decide, fun succeeds => ?_⟩
  have isFine := succeeds_iff.mp succeeds
  exact absurd isFine (by decide)

/-- From the port of multicast DNS the same query is answered, for its questions are not sent
back. -/
theorem handle_returns_iff_example :
    Succeeds (handle asciiBuiltins deskInterfaces deskService growingQuery "192.168.1.7".toList 5353) := by
  refine (handle_returns_iff _ _ _ _ _ _ deskService_encodes).mpr ?_
  rintro ⟨-, message, -, unechoable⟩
  exact unechoable.isLegacy rfl

end Murage.Mdns
