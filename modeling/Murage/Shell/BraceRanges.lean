import Murage.Shell.Decimals
import Murage.Shell.Strides

/-!
Owns what a brace that holds a range of numbers promises, that it asks or becomes each whole number
from one end to the other, and for which ends it keeps that.

Does not own: the loop over a range, and how the ends are spelled.
-/

namespace Murage.Shell

open Murage.Library
open Murage.Library.WholeDoubles

/-! ## The promise -/

/-- The whole numbers from one end to the other, in order. -/
def between (lo hi : Int) : List Int :=
  (List.range ((hi - lo).natAbs + 1)).map fun (k : Nat) => if lo ≤ hi then lo + k else lo - k

/-- What is promised of the brace of a range: it asks, or each whole number from one end to the
other is an alternative, in order, and they are no more than the bound. -/
def Expands (lo hi : Int) (rest : Text) (read : Lex (Option (Part × Text))) : Prop :=
  (∃ error, read.outcome = .error (.unreadable error)) ∨
    ((hi - lo).natAbs + 1 ≤ MAX_BRACE_ALTS ∧
      read.outcome = .ok (some (.brace ((between lo hi).map numberWord), rest)))

/-- The ends for which the loop visits each whole number between them: no further out than 2^53,
where the loop would stand still, or one and the same lone number. -/
def Exact (lo hi : Int) : Prop := if lo ≤ hi then ExactUp lo hi else ExactUp (-lo) (-hi)

def Ends (lo hi : Num) : Prop :=
  ∃ a b, lo = .finite a ∧ hi = .finite b ∧ if a ≤ b then EndsUp a b else EndsUp (-a) (-b)

/-! ## How a brace ends -/

/-- An alternative that is not empty is read by a lexer of its own. -/
def alternative (fuel : Nat) (env : Env) (opener : Nat) (alt : Text) : Lex Word :=
  if alt = [] then pure []
  else do
    let inner ← env.create .alternative opener alt.length
    let (parts, _) ← word fuel inner [] alt
    pure parts

theorem alternative_refused {fuel : Nat} {env : Env} {opener : Nat} {alt : Text}
    (isSome : alt ≠ []) (isDeep : MAX_LEX_DEPTH ≤ env.depth) :
    (alternative fuel env opener alt).outcome = .error (unreadable .depth []) := by
  have isBeyond : MAX_LEX_DEPTH < (env.inside .alternative).depth := Nat.lt_succ_of_le isDeep
  rw [alternative, if_neg isSome]
  refine Traced.bind_error ?_
  rw [Env.create, if_pos isBeyond]

theorem alternative_number {fuel : Nat} {env : Env} {opener : Nat} {value : Int}
    (isEnough : (Num.finite value).text.length < fuel) (isShallow : env.depth < MAX_LEX_DEPTH) :
    (alternative fuel env opener (Num.finite value).text).outcome = .ok (numberWord value) := by
  have isWithin : ¬ MAX_LEX_DEPTH < (env.inside .alternative).depth :=
    Nat.not_lt.2 (Nat.succ_le_of_lt isShallow)
  have isCreated : (env.create .alternative opener (Num.finite value).text.length).outcome
      = .ok (env.inside .alternative) := by
    rw [Env.create, if_neg isWithin]
    rfl
  rw [alternative, if_neg (text_ne_nil value), Traced.bind_ok isCreated, word_number isEnough]
  rfl

/-! ## The numbers of a range -/

theorem consecutive_eq_map (first : Int) (count : Nat) :
    consecutive first count = (List.range count).map fun (k : Nat) => first + k := by
  induction count generalizing first with
  | zero => rfl
  | succ count ih =>
    rw [consecutive, ih, List.range_succ_eq_map, List.map_cons, List.map_map]
    refine congrArg₂ List.cons (by simp) (List.map_congr_left fun k _ => ?_)
    simp only [Function.comp_apply, Nat.cast_succ]
    omega

variable {lo hi a b : Int}

theorem between_up (ordered : lo ≤ hi) :
    between lo hi = consecutive lo (hi + 1 - lo).toNat := by
  rw [consecutive_eq_map, between, show (hi - lo).natAbs + 1 = (hi + 1 - lo).toNat by omega]
  exact List.map_congr_left fun k _ => if_pos ordered

theorem between_down (ordered : hi < lo) :
    between lo hi = (consecutive (-lo) (-hi + 1 - -lo).toNat).map (- ·) := by
  rw [consecutive_eq_map, between, List.map_map,
    show (hi - lo).natAbs + 1 = (-hi + 1 - -lo).toNat by omega]
  refine List.map_congr_left fun k _ => ?_
  rw [if_neg (by omega), Function.comp_apply]
  omega

theorem near_of_accepted (accepted : refused (.finite a) (.finite b) = false) :
    (b - a).natAbs < MAX_BRACE_ALTS := by
  have zeroKept : Kept 0 := kept_of_small (by decide)
  rw [refused] at accepted
  cases isDistance : Num.ofInt (b + -a) with
  | nan => exact absurd isDistance (Num.ofInt_ne_nan _)
  | infinite negative =>
    rw [Num.sub, Num.neg, Num.add, isDistance] at accepted
    cases accepted
  | finite distance =>
    rw [Num.sub, Num.neg, Num.add, isDistance, Num.abs, Num.add] at accepted
    have isPositive : (0 : Int) ≤ distance.natAbs + 1 := by omega
    cases isCount : Num.ofInt (distance.natAbs + 1) with
    | nan => exact absurd isCount (Num.ofInt_ne_nan _)
    | infinite negative =>
      cases negative with
      | true => exact absurd isCount (Num.ofInt_not_low zeroKept isPositive)
      | false =>
        rw [isCount] at accepted
        cases accepted
    | finite count =>
      rw [isCount, Num.lt, Num.le, Num.le, Bool.and_eq_false_iff, decide_eq_false_iff_not,
        Bool.not_eq_false', decide_eq_true_eq] at accepted
      have isAbove : 0 ≤ count := Num.ofInt_mono isPositive (Num.ofInt_kept zeroKept) isCount
      have isRounded := (Num.ofInt_finite isDistance).1
      have isRoundedCount := (Num.ofInt_finite isCount).1
      by_contra isLong
      have atLeast := roundNat_mono (show MAX_BRACE_ALTS ≤ (b + -a).natAbs by omega)
      rw [← isRounded, roundNat_small (by decide)] at atLeast
      have countAtLeast := roundNat_mono
        (show MAX_BRACE_ALTS + 1 ≤ (distance.natAbs + 1 : Int).natAbs by omega)
      rw [← isRoundedCount, roundNat_small (by decide)] at countAtLeast
      omega

theorem finite_of_accepted {lo hi : Num} (accepted : refused lo hi = false) (loNumber : lo ≠ .nan)
    (hiNumber : hi ≠ .nan) :
    (∃ a b, lo = .finite a ∧ hi = .finite b) ∨ rangeNumbers lo hi = none := by
  cases lo with
  | nan => exact absurd rfl loNumber
  | infinite negative =>
    cases hi with
    | nan => exact absurd rfl hiNumber
    | finite b => cases negative <;> cases accepted
    | infinite other =>
      refine Or.inr ?_
      cases negative <;> cases other <;> rfl
  | finite a =>
    cases hi with
    | nan => exact absurd rfl hiNumber
    | infinite other => cases other <;> cases accepted
    | finite b => exact Or.inl ⟨a, b, rfl, rfl⟩

theorem ExactUp.kept (isExact : ExactUp lo hi) (ordered : lo ≤ hi) : Kept lo ∧ Kept hi := by
  rcases isExact with ⟨isAbove, isBelow⟩ | ⟨rfl, isLone⟩
  · exact ⟨kept_of_small (by omega), kept_of_small (by omega)⟩
  · exact ⟨isLone.kept, isLone.kept⟩

theorem ExactUp.ends (isExact : ExactUp lo hi) : EndsUp lo hi := by
  refine isExact.imp (fun isNear => ⟨?_, isNear.2⟩) id
  have isAbove := isNear.1
  omega

theorem consecutive_skips {first start : Int} {count number : Nat} :
    start :: consecutive (start + 2) (count + 1) ≠ consecutive first number := by
  intro same
  cases number with
  | zero => cases same
  | succ number =>
    rw [consecutive] at same
    obtain ⟨rfl, isRest⟩ := List.cons.inj same
    have isFirst := (consecutive_eq (Nat.succ_pos count) isRest).1
    omega

/-- **The loop up, for ends as they are spelled.** -/
theorem rangeFrom_spelled (ordered : lo ≤ hi) (isLo : Num.ofInt lo = .finite a)
    (isHi : Num.ofInt hi = .finite b) (isNear : (b - a).natAbs < MAX_BRACE_ALTS)
    (ends : EndsUp a b) :
    ∃ numbers, numbers ≠ [] ∧
      rangeFrom true (.finite b) (MAX_BRACE_ALTS + 1) (.finite a) = some (numbers.map .finite) ∧
      (numbers = consecutive lo (hi + 1 - lo).toNat ↔ ExactUp lo hi) := by
  have firstKept := (Num.ofInt_finite isLo).2
  have lastKept := (Num.ofInt_finite isHi).2
  have stays : ExactUp lo hi → a = lo ∧ b = hi := by
    intro isExact
    obtain ⟨loKept, hiKept⟩ := isExact.kept ordered
    rw [Num.ofInt_kept loKept] at isLo
    rw [Num.ofInt_kept hiKept] at isHi
    exact ⟨(Num.finite.inj isLo).symm, (Num.finite.inj isHi).symm⟩
  have roundedOrder : a ≤ b := Num.ofInt_mono ordered isLo isHi
  have isEnough : b - a + 1 < ((MAX_BRACE_ALTS + 1 : Nat) : Int) := by omega
  rcases rangeFrom_ends roundedOrder firstKept lastKept isEnough ends with
    ⟨isExact, areNumbers⟩ | ⟨notExact, isBefore, count, areNumbers⟩
  · refine ⟨_, ?_, areNumbers, ?_, ?_⟩
    · rw [show (b + 1 - a).toNat = (b - a).toNat + 1 by omega]
      exact nofun
    · intro same
      obtain ⟨rfl, isCount⟩ := consecutive_eq (show 0 < (b + 1 - a).toNat by omega) same
      rwa [show hi = b by omega]
    · intro isSpelled
      obtain ⟨rfl, rfl⟩ := stays isSpelled
      rfl
  · refine ⟨_, List.cons_ne_nil _ _, areNumbers, fun same => absurd same consecutive_skips,
      fun isSpelled => ?_⟩
    obtain ⟨rfl, rfl⟩ := stays isSpelled
    exact absurd isSpelled notExact

/-- **The numbers of a range that ends.** -/
theorem rangeNumbers_ends (accepted : refused (.ofInt lo) (.ofInt hi) = false)
    (ends : Ends (.ofInt lo) (.ofInt hi)) :
    ∃ numbers, numbers ≠ [] ∧
      rangeNumbers (.ofInt lo) (.ofInt hi) = some (numbers.map .finite) ∧
      (numbers = between lo hi ↔ Exact lo hi) := by
  obtain ⟨a, b, isLo, isHi, ends⟩ := ends
  rw [isLo, isHi] at accepted
  have isNear := near_of_accepted accepted
  rw [isLo, isHi, rangeNumbers, Exact]
  by_cases ordered : lo ≤ hi
  · have roundedOrder : a ≤ b := Num.ofInt_mono ordered isLo isHi
    rw [if_pos roundedOrder] at ends
    rw [if_pos ordered, between_up ordered, show (Num.finite a).le (.finite b) = true from
      decide_eq_true roundedOrder]
    exact rangeFrom_spelled ordered isLo isHi isNear ends
  have isDown : hi < lo := not_le.1 ordered
  rw [if_neg ordered, between_down isDown]
  by_cases isSame : a ≤ b
  · -- The ends are two numbers, and one double.
    have isOne : b = a := le_antisymm (Num.ofInt_mono isDown.le isHi isLo) isSame
    subst isOne
    rw [if_pos isSame] at ends
    have isKept := (Num.ofInt_finite isLo).2
    have isEnough : b - b + 1 < ((MAX_BRACE_ALTS + 1 : Nat) : Int) := by omega
    rcases rangeFrom_ends isSame isKept isKept isEnough ends with
      ⟨_, areNumbers⟩ | ⟨_, isBefore, _⟩
    · rw [show (Num.finite b).le (.finite b) = true from decide_eq_true isSame]
      refine ⟨_, ?_, areNumbers, fun same => ?_, fun isExact => ?_⟩
      · rw [show (b + 1 - b).toNat = 1 by omega]
        exact List.cons_ne_nil _ _
      · have counted := congrArg List.length same
        rw [List.length_map, consecutive_length, consecutive_length] at counted
        omega
      · obtain ⟨loKept, hiKept⟩ := isExact.kept (neg_le_neg isDown.le)
        rw [Num.ofInt_kept loKept.of_neg] at isLo
        rw [Num.ofInt_kept hiKept.of_neg, ← isLo] at isHi
        exact absurd (Num.finite.inj isHi) isDown.ne
    · exact absurd isBefore (lt_irrefl b)
  · rw [if_neg isSame] at ends
    have negLo : Num.ofInt (-lo) = .finite (-a) := by rw [ofInt_neg, isLo, Num.neg]
    have negHi : Num.ofInt (-hi) = .finite (-b) := by rw [ofInt_neg, isHi, Num.neg]
    obtain ⟨numbers, isSome, areNumbers, isExact⟩ :=
      rangeFrom_spelled (neg_le_neg isDown.le) negLo negHi (by omega) ends
    refine ⟨numbers.map (- ·), mt List.map_eq_nil_iff.1 isSome, ?_, ?_⟩
    · have isDownward := rangeFrom_neg (.finite (-b)) (MAX_BRACE_ALTS + 1) (.finite (-a))
      rw [areNumbers, Num.neg, Num.neg, neg_neg, neg_neg] at isDownward
      rw [show (Num.finite a).le (.finite b) = false from decide_eq_false isSame, isDownward,
        Option.map_some, List.map_map, List.map_map]
      rfl
    · rw [← isExact]
      exact (List.map_injective_iff.2 neg_injective).eq_iff

/-- **Any other range does not end.** -/
theorem rangeNumbers_endless (accepted : refused (.ofInt lo) (.ofInt hi) = false)
    (isEndless : ¬ Ends (.ofInt lo) (.ofInt hi)) :
    rangeNumbers (.ofInt lo) (.ofInt hi) = none := by
  rcases finite_of_accepted accepted (Num.ofInt_ne_nan lo) (Num.ofInt_ne_nan hi) with
    ⟨a, b, isLo, isHi⟩ | isNone
  · have firstKept := (Num.ofInt_finite isLo).2
    have lastKept := (Num.ofInt_finite isHi).2
    rw [isLo, isHi, rangeNumbers]
    have noEnd : ¬ if a ≤ b then EndsUp a b else EndsUp (-a) (-b) :=
      fun ends => isEndless ⟨a, b, isLo, isHi, ends⟩
    by_cases ordered : a ≤ b
    · rw [if_pos ordered] at noEnd
      rw [show (Num.finite a).le (.finite b) = true from decide_eq_true ordered]
      exact rangeFrom_endless ordered firstKept lastKept noEnd
    · rw [if_neg ordered] at noEnd
      have isDownward := rangeFrom_neg (.finite (-b)) (MAX_BRACE_ALTS + 1) (.finite (-a))
      rw [rangeFrom_endless (neg_le_neg (not_le.1 ordered).le) firstKept.neg lastKept.neg noEnd,
        Num.neg, Num.neg, neg_neg, neg_neg] at isDownward
      rw [show (Num.finite a).le (.finite b) = false from decide_eq_false ordered]
      exact isDownward
  · exact isNone

theorem exact_ends (accepted : refused (.ofInt lo) (.ofInt hi) = false) (isExact : Exact lo hi) :
    Ends (.ofInt lo) (.ofInt hi) ∧ (hi - lo).natAbs + 1 ≤ MAX_BRACE_ALTS := by
  have areKept : Kept lo ∧ Kept hi := by
    rw [Exact] at isExact
    by_cases ordered : lo ≤ hi
    · rw [if_pos ordered] at isExact
      exact isExact.kept ordered
    · rw [if_neg ordered] at isExact
      obtain ⟨loKept, hiKept⟩ := isExact.kept (neg_le_neg (not_le.1 ordered).le)
      exact ⟨loKept.of_neg, hiKept.of_neg⟩
  rw [Num.ofInt_kept areKept.1, Num.ofInt_kept areKept.2] at accepted ⊢
  refine ⟨⟨lo, hi, rfl, rfl, ?_⟩, near_of_accepted accepted⟩
  rw [Exact] at isExact
  split
  · rename_i ordered
    rw [if_pos ordered] at isExact
    exact isExact.ends
  · rename_i isDown
    rw [if_neg isDown] at isExact
    exact isExact.ends

section Brace

variable {fuel : Nat} {env : Env} {start inner closer : Text}

theorem brace_throws {stop : Stop} (isFound : upTo (u '\x7d') start = some (inner, closer))
    (isThrown : (expand inner).outcome = .error stop) :
    (brace (fuel + 1) env start).outcome = .error stop := by
  rw [brace.eq_def]
  dsimp only
  rw [isFound]
  exact Traced.bind_error isThrown

theorem brace_reads {alts : List Text} (isFound : upTo (u '\x7d') start = some (inner, closer))
    (isRead : (expand inner).outcome = .ok (some alts)) :
    (brace (fuel + 1) env start).outcome =
      (do
        let words ← Traced.forEach (alternative fuel env (start.length + 1)) alts
        pure (some (Part.brace words, closer.drop 1)) : Lex (Option (Part × Text))).outcome := by
  rw [brace.eq_def]
  dsimp only
  rw [isFound]
  dsimp only
  rw [Traced.bind_ok isRead]
  rfl

end Brace

section Range

variable {fuel : Nat} {env : Env} {lo hi : Decimal} {rest : Text}

theorem range_found : upTo (u '\x7d') (rangeText lo hi ++ u '\x7d' :: rest)
    = some (rangeText lo hi, u '\x7d' :: rest) :=
  upTo_append fun c isChar => (range_plain c (rangeText_plain lo hi c isChar)).2.2.2.2.2

theorem brace_refused (isRefused : refused (.ofInt lo.value) (.ofInt hi.value) = true) :
    ∃ error, (brace (fuel + 1) env (rangeText lo hi ++ u '\x7d' :: rest)).outcome
      = .error (.unreadable error) := by
  have isThrown : (expand (rangeText lo hi)).outcome
      = .error (unreadable .expansion (u '\x7b' :: rangeText lo hi ++ [u '\x7d'])) := by
    rw [expand, readBrace_text, if_pos isRefused]
    rfl
  exact ⟨_, brace_throws range_found isThrown⟩

theorem brace_endless (accepted : refused (.ofInt lo.value) (.ofInt hi.value) = false)
    (isNone : rangeNumbers (.ofInt lo.value) (.ofInt hi.value) = none) :
    (brace (fuel + 1) env (rangeText lo hi ++ u '\x7d' :: rest)).outcome = .error .endless := by
  refine brace_throws range_found ?_
  rw [expand, readBrace_text, if_neg (ne_true_of_eq_false accepted)]
  dsimp only
  rw [isNone]

theorem expand_numbers {numbers : List Int}
    (accepted : refused (.ofInt lo.value) (.ofInt hi.value) = false)
    (areNumbers : rangeNumbers (.ofInt lo.value) (.ofInt hi.value)
      = some (numbers.map .finite)) :
    (expand (rangeText lo hi)).outcome
      = .ok (some (numbers.map fun value => (Num.finite value).text)) := by
  rw [expand, readBrace_text, if_neg (ne_true_of_eq_false accepted)]
  dsimp only
  have isLogged : (Traced.log (.range (.ofInt lo.value) (.ofInt hi.value)) : Lex PUnit).outcome
      = .ok ⟨⟩ := rfl
  rw [areNumbers, Traced.bind_ok isLogged, List.map_map]
  rfl

theorem brace_numbers {numbers : List Int}
    (accepted : refused (.ofInt lo.value) (.ofInt hi.value) = false) (isSome : numbers ≠ [])
    (areNumbers : rangeNumbers (.ofInt lo.value) (.ofInt hi.value) = some (numbers.map .finite))
    (isEnough : (rangeText lo hi).length < fuel) :
    (brace (fuel + 1) env (rangeText lo hi ++ u '\x7d' :: rest)).outcome =
      if MAX_LEX_DEPTH ≤ env.depth then .error (unreadable .depth [])
      else .ok (some (.brace (numbers.map numberWord), rest)) := by
  rw [brace_reads range_found (expand_numbers accepted areNumbers)]
  by_cases isDeep : MAX_LEX_DEPTH ≤ env.depth
  · rw [if_pos isDeep]
    obtain ⟨first, others, rfl⟩ := List.exists_cons_of_ne_nil isSome
    exact Traced.bind_error (Traced.forEach_error (alternative_refused (text_ne_nil first) isDeep))
  · rw [if_neg isDeep]
    have isRange : readBrace (rangeText lo hi) = .range (.ofInt lo.value) (.ofInt hi.value) := by
      rw [readBrace_text, if_neg (ne_true_of_eq_false accepted)]
    have areShort := range_shorter isRange areNumbers
    have areRead : (Traced.forEach (alternative fuel env
        ((rangeText lo hi ++ u '\x7d' :: rest).length + 1))
        (numbers.map fun value => (Num.finite value).text)).outcome
        = .ok (numbers.map numberWord) := by
      refine Traced.forEach_ok fun value isNumber => ?_
      have isShort := areShort (.finite value) (List.mem_map_of_mem isNumber)
      exact alternative_number (isShort.trans_lt isEnough) (not_le.1 isDeep)
    rw [Traced.bind_ok areRead]
    rfl

end Range

/-- **The brace of a range asks or becomes the whole numbers of the range, and the loop ends,
exactly when the code refuses the range, or its ends lie where each whole number is a double that
the next differs from, or the loop ends and its alternatives are too deep to be read.** -/
theorem brace_expands_iff (fuel : Nat) (env : Env) (lo hi : Decimal) (rest : Text)
    (isEnough : 8 * (rangeText lo hi ++ u '\x7d' :: rest).length < fuel) :
    Expands lo.value hi.value rest (brace fuel env (rangeText lo hi ++ u '\x7d' :: rest)) ↔
      refused (.ofInt lo.value) (.ofInt hi.value) = true ∨ Exact lo.value hi.value ∨
        (MAX_LEX_DEPTH ≤ env.depth ∧ Ends (.ofInt lo.value) (.ofInt hi.value)) := by
  obtain ⟨fewer, rfl⟩ := Nat.exists_eq_add_one_of_ne_zero (Nat.ne_zero_of_lt isEnough)
  have inputLength : (rangeText lo hi).length < fewer := by
    rw [List.length_append, List.length_cons] at isEnough
    omega
  cases accepted : refused (.ofInt lo.value) (.ofInt hi.value) with
  | true => exact iff_of_true (Or.inl (brace_refused accepted)) (Or.inl rfl)
  | false =>
    rw [Expands, or_iff_right Bool.false_ne_true]
    by_cases ends : Ends (.ofInt lo.value) (.ofInt hi.value)
    · obtain ⟨numbers, isSome, areNumbers, isExact⟩ := rangeNumbers_ends accepted ends
      rw [brace_numbers accepted isSome areNumbers inputLength]
      by_cases isDeep : MAX_LEX_DEPTH ≤ env.depth
      · rw [if_pos isDeep]
        exact iff_of_true (Or.inl ⟨_, rfl⟩) (Or.inr ⟨isDeep, ends⟩)
      · rw [if_neg isDeep, or_iff_left (not_and.2 fun deep => absurd deep isDeep), ← isExact]
        constructor
        · rintro (⟨_, isError⟩ | ⟨_, areRead⟩)
          · cases isError
          · have isPair := Prod.mk.inj (Option.some.inj (Except.ok.inj areRead))
            have areSame := Part.brace.inj isPair.1
            exact List.map_injective_iff.2 numberWord_injective areSame
        · rintro rfl
          exact Or.inr ⟨(exact_ends accepted (isExact.1 rfl)).2, rfl⟩
    · rw [brace_endless accepted (rangeNumbers_endless accepted ends)]
      refine iff_of_false ?_ ?_
      · rintro (⟨_, isError⟩ | ⟨_, areRead⟩)
        · cases isError
        · cases areRead
      · rintro (isExact | ⟨_, ends'⟩)
        · exact ends (exact_ends accepted isExact).1
        · exact ends ends'

theorem brace_expands_iff_one_three :
    Expands 1 3 (units "x") (brace 100 Env.top (units "1..3\x7dx")) := by
  have isExact : Exact 1 3 := by
    rw [Exact, if_pos (by decide)]
    exact Or.inl ⟨by decide, by decide⟩
  exact (brace_expands_iff 100 Env.top
    ⟨false, units "1", by decide, List.all_eq_true.mp (by decide)⟩
    ⟨false, units "3", by decide, List.all_eq_true.mp (by decide)⟩ (units "x")
    (by decide)).2 (Or.inr (Or.inl isExact))

def standsStill (outcome : Except Stop (Option (Part × Text))) : Bool :=
  match outcome with
  | .error .endless => true
  | _ => false

/-- The loop from 2^53 to the number after it stands still at its first number. -/
theorem brace_not_expands :
    ¬ ∀ (fuel : Nat) (env : Env) (lo hi : Decimal) (rest : Text),
      8 * (rangeText lo hi ++ u '\x7d' :: rest).length < fuel →
        Expands lo.value hi.value rest (brace fuel env (rangeText lo hi ++ u '\x7d' :: rest)) := by
  intro expands
  have isPromised := expands 400 Env.top
    ⟨false, units "9007199254740992", by decide, List.all_eq_true.mp (by decide)⟩
    ⟨false, units "9007199254740993", by decide, List.all_eq_true.mp (by decide)⟩ [] (by decide)
  have isEndless : standsStill (brace 400 Env.top
      (units "9007199254740992..9007199254740993\x7d")).outcome = true := by
    decide +kernel
  rcases isPromised with ⟨_, isError⟩ | ⟨_, isOk⟩
  · have isEnd : (brace 400 Env.top (units "9007199254740992..9007199254740993\x7d")).outcome = _ :=
      isError
    rw [isEnd] at isEndless
    cases isEndless
  · have isEnd : (brace 400 Env.top (units "9007199254740992..9007199254740993\x7d")).outcome = _ :=
      isOk
    rw [isEnd] at isEndless
    cases isEndless

end Murage.Shell
