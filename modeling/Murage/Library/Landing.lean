import Mathlib.Data.List.Induction
import Mathlib.Tactic.Common

/-!
Owns the landing of lines in a log that others write too: a line is written unless the log has it.
A whole list of lines that has landed stays landed however the log grows, so that over any history
it lands at one moment. It names no program.
-/

namespace Murage.Library

universe u v

/-- How a line is looked for in a log and what is written for it. What is found stays found while
the log grows, and what was just written is found. -/
structure Landing (Row : Type u) (Line : Type v) where
  There : List Row → Line → Prop
  decides : ∀ rows line, Decidable (There rows line)
  write : Line → Row
  grows : ∀ {rows line} (more : List Row), There rows line → There (rows ++ more) line
  wrote : ∀ rows line, There (rows ++ [write line]) line

namespace Landing

variable {Row : Type u} {Line : Type v} (landing : Landing Row Line)

instance (rows : List Row) (line : Line) : Decidable (landing.There rows line) :=
  landing.decides rows line

def land (rows : List Row) (line : Line) : List Row :=
  if landing.There rows line then rows else rows ++ [landing.write line]

def landAll (rows : List Row) (lines : List Line) : List Row :=
  lines.foldl landing.land rows

variable {landing} {rows more : List Row} {line : Line} {lines : List Line}

theorem land_of_there (isIn : landing.There rows line) : landing.land rows line = rows :=
  if_pos isIn

theorem land_of_not_there (isMissing : ¬ landing.There rows line) :
    landing.land rows line = rows ++ [landing.write line] :=
  if_neg isMissing

/-- Landing a line keeps the log. -/
theorem land_prefix : rows <+: landing.land rows line := by
  by_cases isIn : landing.There rows line
  · exact (land_of_there isIn).symm ▸ List.prefix_rfl
  · exact (land_of_not_there isIn).symm ▸ List.prefix_append rows _

theorem there_land : landing.There (landing.land rows line) line := by
  by_cases isIn : landing.There rows line
  · rwa [land_of_there isIn]
  · rw [land_of_not_there isIn]
    exact landing.wrote rows line

theorem landAll_prefix : rows <+: landing.landAll rows lines := by
  induction lines generalizing rows with
  | nil => exact List.prefix_rfl
  | cons line rest ih => exact land_prefix.trans ih

theorem There.of_prefix {later : List Row} (isIn : landing.There rows line)
    (isPrefix : rows <+: later) : landing.There later line := by
  obtain ⟨more, rfl⟩ := isPrefix
  exact landing.grows more isIn

/-- **Every line of a list that was landed is in the log.** -/
theorem there_landAll (isLanded : line ∈ lines) : landing.There (landing.landAll rows lines) line := by
  induction lines generalizing rows with
  | nil => cases isLanded
  | cons first rest ih =>
    rcases List.mem_cons.1 isLanded with rfl | isLater
    · exact there_land.of_prefix landAll_prefix
    · exact ih isLater

/-- Lines that are all there land without a write. -/
theorem landAll_of_there (areThere : ∀ line ∈ lines, landing.There rows line) :
    landing.landAll rows lines = rows := by
  induction lines with
  | nil => rfl
  | cons first rest ih =>
    have firstThere : landing.land rows first = rows :=
      land_of_there (areThere first List.mem_cons_self)
    rw [landAll, List.foldl_cons, firstThere]
    exact ih fun line isLater => areThere line (List.mem_cons_of_mem _ isLater)

/-! ## One landing -/

/-- A log that held `start`, to which others wrote `written`, and in which the lines landed at one
moment, when `Ready` held of it. -/
def Landed (landing : Landing Row Line) (Ready : List Row → Prop) (lines : List Line)
    (start written log : List Row) : Prop :=
  ∃ before after, written = before ++ after ∧ Ready (start ++ before) ∧
    log = landing.landAll (start ++ before) lines ++ after

def Once (landing : Landing Row Line) (Ready : List Row → Prop) (lines : List Line)
    (start written log : List Row) : Prop :=
  log = start ++ written ∨ landing.Landed Ready lines start written log

section

variable {Ready : List Row → Prop} {start written log : List Row}

theorem Landed.grew (isLanded : landing.Landed Ready lines start written log) (row : Row) :
    landing.Landed Ready lines start (written ++ [row]) (log ++ [row]) := by
  obtain ⟨before, after, rfl, isReady, rfl⟩ := isLanded
  refine ⟨before, after ++ [row], ?_, isReady, ?_⟩
  · rw [List.append_assoc]
  · rw [List.append_assoc]

theorem Once.grew (isOnce : landing.Once Ready lines start written log) (row : Row) :
    landing.Once Ready lines start (written ++ [row]) (log ++ [row]) := by
  rcases isOnce with rfl | isLanded
  · exact Or.inl (List.append_assoc _ _ _)
  · exact Or.inr (isLanded.grew row)

/-- Lines that landed before land again without a write. -/
theorem Landed.there (isLanded : landing.Landed Ready lines start written log) :
    ∀ line ∈ lines, landing.There log line := by
  obtain ⟨before, after, -, -, rfl⟩ := isLanded
  exact fun line isLine => landing.grows after (there_landAll isLine)

theorem Once.landed (isOnce : landing.Once Ready lines start written log) (isReady : Ready log) :
    landing.Landed Ready lines start written (landing.landAll log lines) := by
  rcases isOnce with rfl | isLanded
  · exact ⟨written, [], (List.append_nil _).symm, isReady, (List.append_nil _).symm⟩
  · rwa [landAll_of_there isLanded.there]

end

end Landing

end Murage.Library
