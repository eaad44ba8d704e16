import Murage.Shell.Ranges

/-!
Owns the parts of the reader that read no further text: what they leave is no longer than what they
got, and none of them fails for the depth.

Does not own: the scanning.
-/

namespace Murage.Shell

open Murage.Library.Traced (EndsIn)

def Plain {α : Type} (post : α → Prop) (result : Except Unreadable α) : Prop :=
  EndsIn (fun error => error.reason ≠ .depth) post result

theorem plain_error {α : Type} {post : α → Prop} {reason : UnreadableReason}
    {detail : Option Text} (isPlain : reason ≠ .depth) : Plain post (.error ⟨reason, detail⟩) :=
  isPlain

theorem plain_ok {α : Type} {post : α → Prop} {value : α} (isPost : post value) :
    Plain post (.ok value) :=
  isPost

theorem plain_map {α β : Type} {post : β → Prop} {result : Except Unreadable α} {change : α → β}
    (isPlain : Plain (fun value => post (change value)) result) :
    Plain post (result.map change) := by
  cases result with
  | error error => exact isPlain
  | ok value => exact isPlain

theorem plain_imp {α : Type} {post other : α → Prop} {result : Except Unreadable α}
    (isPlain : Plain post result) (weaker : ∀ value, post value → other value) :
    Plain other result := by
  cases result with
  | error error => exact isPlain
  | ok value => exact weaker value isPlain

theorem upTo_length {stop : UInt16} {text before rest : Text}
    (isFound : upTo stop text = some (before, rest)) :
    before.length + rest.length = text.length ∧ 0 < rest.length := by
  induction text generalizing before with
  | nil => cases isFound
  | cons c others ih =>
    rw [upTo] at isFound
    split at isFound
    · cases isFound
      exact ⟨Nat.zero_add _, Nat.succ_pos _⟩
    · obtain ⟨⟨earlier, later⟩, isLater, isPair⟩ := Option.map_eq_some_iff.1 isFound
      cases isPair
      obtain ⟨counted, isPositive⟩ := ih isLater
      refine ⟨?_, isPositive⟩
      simp only [List.length_cons] at counted ⊢
      omega

theorem upToUnescaped_length {stop : UInt16} {text before rest : Text}
    (isFound : upToUnescaped stop text = some (before, rest)) :
    before.length + rest.length = text.length ∧ 0 < rest.length := by
  fun_induction upToUnescaped stop text generalizing before with
  | case1 => cases isFound
  | case2 => cases isFound
  | case3 escaped others ih =>
    obtain ⟨⟨earlier, later⟩, isLater, isPair⟩ := Option.map_eq_some_iff.1 isFound
    cases isPair
    obtain ⟨counted, isPositive⟩ := ih isLater
    refine ⟨?_, isPositive⟩
    simp only [List.length_cons] at counted ⊢
    omega
  | case4 =>
    cases isFound
    exact ⟨Nat.zero_add _, Nat.succ_pos _⟩
  | case5 c others isPlain isOther ih =>
    obtain ⟨⟨earlier, later⟩, isLater, isPair⟩ := Option.map_eq_some_iff.1 isFound
    cases isPair
    obtain ⟨counted, isPositive⟩ := ih isLater
    refine ⟨?_, isPositive⟩
    simp only [List.length_cons] at counted ⊢
    omega

theorem dropWhile_length (isPart : UInt16 → Bool) (text : Text) :
    (text.dropWhile isPart).length ≤ text.length :=
  (List.dropWhile_suffix isPart).length_le

theorem readName_shorter {text name rest : Text} (isRead : readName text = some (name, rest)) :
    rest.length ≤ text.length := by
  rw [readName.eq_def] at isRead
  split at isRead
  · cases isRead
  · split_ifs at isRead <;> cases isRead
    · exact dropWhile_length nameChar _
    · exact dropWhile_length isDigit _
    · exact Nat.le_succ _

theorem readSubscript_shorter {text rest : Text} (isRead : readSubscript text = some rest) :
    rest.length ≤ text.length := by
  rw [readSubscript] at isRead
  split at isRead
  · cases isRead
    exact le_rfl
  · split at isRead
    · cases isRead
    · rename_i before beyond isFound
      split at isRead
      · cases isRead
        have counted := (upTo_length isFound).1
        rw [List.length_drop]
        omega
      · cases isRead

theorem readVar_plain {inner : Text} :
    Plain (fun read : VarRead => read.operand.length ≤ inner.length) (readVar inner) := by
  rw [readVar]
  dsimp only
  split
  · exact plain_error nofun
  split
  · exact plain_error nofun
  rename_i name rest isName
  have isRest := readName_shorter isName
  have isInner : rest.length ≤ inner.length := by
    refine isRest.trans ?_
    split
    · rw [List.length_drop]
      omega
    · exact le_rfl
  split
  · exact plain_error nofun
  rename_i beyond isSubscript
  have isBeyond := readSubscript_shorter isSubscript
  split
  · split
    · exact plain_error nofun
    · exact plain_ok (Nat.zero_le _)
  split
  · exact plain_ok (Nat.zero_le _)
  split
  · exact plain_error nofun
  · refine plain_ok ?_
    rw [List.length_drop]
    omega

theorem pushWord_plain {st : Scan} {word : Word} :
    Plain (fun after => after.rest = st.rest) (pushWord st word) := by
  rw [pushWord]
  split
  · exact plain_error nofun
  · dsimp only
    split_ifs <;> exact plain_ok rfl

theorem decoded_plain {code : Nat} {spelled : Text} :
    Plain (fun _ => True) (decoded code spelled) := by
  rw [decoded]
  split
  · exact plain_error nofun
  split
  · exact plain_error nofun
  · exact plain_ok trivial

theorem decoded_then {code : Nat} {spelled : Text} {next : Except Unreadable Text}
    (isNext : Plain (fun _ => True) next) :
    Plain (fun _ => True) (match decoded code spelled with
      | .error error => .error error
      | .ok text => next.map (text ++ ·)) := by
  have isDecoded : Plain (fun _ => True) (decoded code spelled) := decoded_plain
  cases isEnd : decoded code spelled with
  | error error =>
    rw [isEnd] at isDecoded
    exact isDecoded
  | ok text => exact plain_map isNext

theorem ansiUnescape_plain {skip : Nat} {text : Text} :
    Plain (fun _ => True) (ansiUnescape skip text) := by
  induction text generalizing skip with
  | nil => exact plain_ok trivial
  | cons c rest ih =>
    have more : ∀ {before : Text} {skip : Nat},
        Plain (fun _ => True) ((ansiUnescape skip rest).map (before ++ ·)) :=
      plain_map ih
    cases skip with
    | succ skip =>
      rw [ansiUnescape]
      exact ih
    | zero =>
      rw [ansiUnescape.eq_def]
      dsimp only
      split
      · exact more
      split
      · exact plain_error fun isThrown => by cases isThrown
      split
      · exact more
      split
      · exact decoded_then ih
      split
      · split
        · exact plain_error fun isThrown => by cases isThrown
        · split
          · exact plain_error fun isThrown => by cases isThrown
          · exact decoded_then ih
      · exact plain_error fun isThrown => by cases isThrown

/-! ## Here-documents -/

theorem joinWith_cons (separator : UInt16) (part : Text) (rest : List Text) :
    (joinWith separator rest).length ≤ (joinWith separator (part :: rest)).length := by
  cases rest with
  | nil => exact Nat.zero_le _
  | cons next others =>
    rw [joinWith.eq_3 separator part (next :: others) nofun, List.length_append,
      List.length_cons]
    omega

theorem joinWith_splitOn (separator : UInt16) (text : Text) :
    (joinWith separator (splitOn separator text)).length = text.length := by
  induction text with
  | nil => rfl
  | cons c rest ih =>
    have isSome := (splitOn_shorter separator rest).1
    rw [splitOn]
    split
    · rw [joinWith, List.nil_append, List.length_cons, ih, List.length_cons]
      exact isSome
    · cases isSplit : splitOn separator rest with
      | nil => exact absurd isSplit isSome
      | cons first others =>
        rw [isSplit] at ih
        rw [List.length_cons, ← ih]
        cases others with
        | nil => rfl
        | cons next others =>
          have isMore : next :: others ≠ [] := List.cons_ne_nil next others
          rw [joinWith.eq_3 separator (c :: first) (next :: others) isMore,
            joinWith.eq_3 separator first (next :: others) isMore, List.cons_append,
            List.length_cons]

theorem heredocBody_shorter {heredoc : Heredoc} {lines left body' : List Text} :
    ∀ {line compare : Text} {body : List Text},
      heredocBody heredoc line compare body lines = some (body', left) →
        (joinWith (u '\n') left).length ≤ (joinWith (u '\n') lines).length := by
  induction lines with
  | nil => exact nofun
  | cons physical rest ih =>
    intro line compare body isBody
    have isLater := joinWith_cons (u '\n') physical rest
    rw [heredocBody] at isBody
    generalize (if heredoc.strip then physical.dropWhile (· == u '\t') else physical) = stripped
      at isBody
    split at isBody
    · exact (ih isBody).trans isLater
    split at isBody
    · cases isBody
      exact isLater
    · exact (ih isBody).trans isLater

theorem drainHeredocs_plain {pending : List Pending} {tokens : List Token} {rest : Text} :
    Plain (fun out : List Token × Text => out.2.length ≤ rest.length)
      (drainHeredocs pending tokens rest) := by
  induction pending generalizing tokens rest with
  | nil => exact plain_ok le_rfl
  | cons first others ih =>
    rw [drainHeredocs]
    split
    · exact plain_error nofun
    rename_i lines left isBody
    have isShorter := heredocBody_shorter isBody
    rw [joinWith_splitOn] at isShorter
    exact plain_imp ih fun out isOut => le_trans isOut isShorter

end Murage.Shell
