import MiniPascal.Proofs.Layout.Declarations
import MiniPascal.Proofs.Lexical.Standing
import MiniPascal.Proofs.Parser.Declarations

/-!
# Order in a text

The lexemes of a text come up in reading order, and so do the headings that a parser makes of them:
the positions of forward declarations increase from one to the next.
-/

namespace MiniPascal

/-! ### Places -/

namespace Position

theorem before_iff {first second : Position} :
    first.before second = true ↔
      first.line < second.line ∨ first.line = second.line ∧ first.column < second.column := by
  simp [before]

theorem before_trans {first second third : Position} (h₁ : first.before second = true)
    (h₂ : second.before third = true) : first.before third = true := by
  rw [before_iff] at *
  omega

theorem before_past (position : Position) (char : Char) :
    position.before (position.past char) = true := by
  rw [before_iff, past]
  split
  · exact .inl (Nat.lt_succ_self _)
  · exact .inr ⟨rfl, Nat.lt_succ_self _⟩

end Position

theorem place_before_place (front : List Char) {more : List Char} (notEmpty : more ≠ []) :
    (place front).before (place (front ++ more)) = true := by
  induction more generalizing front with
  | nil => exact absurd rfl notEmpty
  | cons char others ih =>
      have first : (place front).before (place (front ++ [char])) = true := by
        rw [place_append_singleton]
        exact Position.before_past _ _
      cases others with
      | nil => exact first
      | cons second rest =>
          have later := ih (front ++ [char]) (List.cons_ne_nil _ _)
          rw [List.append_assoc] at later
          exact Position.before_trans first later

theorem place_before_endPlace (front : List Char) {more : List Char} (notEmpty : more ≠ []) :
    (place front).before (endPlace (front ++ more)) = true := by
  have last : (place (front ++ more.dropLast)).before (endPlace (front ++ more)) = true := by
    rw [endPlace, if_neg (by simp [notEmpty]), List.dropLast_append_of_ne_nil notEmpty,
      Position.before_iff]
    exact .inr ⟨rfl, Nat.lt_succ_self _⟩
  by_cases isEmpty : more.dropLast = []
  · rwa [isEmpty, List.append_nil] at last
  · exact Position.before_trans (place_before_place front isEmpty) last

def Behind (before : List Char) (position : Position) : Prop :=
  ∀ front more, before = front ++ more → more ≠ [] → (place front).before position = true

theorem behind_place (before gap : List Char) : Behind before (place (before ++ gap)) := by
  rintro front more rfl notEmpty
  rw [List.append_assoc]
  exact place_before_place front (by simp [notEmpty])

theorem behind_endPlace (before gap : List Char) : Behind before (endPlace (before ++ gap)) := by
  rintro front more rfl notEmpty
  rw [List.append_assoc]
  exact place_before_endPlace front (by simp [notEmpty])

theorem Behind.ofAppend {before more : List Char} {position : Position}
    (behind : Behind (before ++ more) position) : Behind before position := by
  rintro front others rfl notEmpty
  exact behind front (others ++ more) (by simp) (by simp [notEmpty])

/-! ### Lexemes in order -/

theorem Lexeme.ne_nil {text : List Char} {spelled : Position → Token} (lexeme : Lexeme text spelled) :
    text ≠ [] := by
  cases lexeme with
  | symbol isText notReserved =>
      obtain ⟨first, others, isCons, -⟩ := TokenKind.symbol_spelling isText notReserved
      rw [isCons]
      exact List.cons_ne_nil _ _
  | hex isMark notEmpty areDigits => simp [notEmpty]
  | _ => exact List.cons_ne_nil _ _

namespace Lexer

variable {before after : List Char}

theorem next_in_order {lexer rest : Lexer} {token : Token} (stands : lexer.At before after)
    (noneReturned : lexer.returned = []) (ok : lexer.next = .ok token rest) :
    Behind before token.position ∧ rest.returned = [] ∧ ∃ more after', rest.At (before ++ more) after' ∧
      (token.kind ≠ .endOfInput → ∀ position, Behind (before ++ more) position →
        token.position.before position = true) := by
  obtain ⟨gap, isGap, noneReturned, step⟩ := next_cut stands noneReturned ok
  rcases step with ⟨lexeme, spelled, left, -, stands, rfl, isLexeme, -⟩ | ⟨-, stands, rfl⟩
  · rw [isLexeme.position_spelled]
    refine ⟨behind_place before gap, noneReturned, gap ++ lexeme, left, by simpa using stands, ?_⟩
    intro _ position behind
    exact behind (before ++ gap) lexeme (by simp) isLexeme.ne_nil
  · exact ⟨behind_endPlace before gap, noneReturned, gap, [], stands,
      fun notEnd => absurd rfl notEnd⟩

theorem complete_in_order {lexer rest : Lexer} {token whole : Token} (stands : lexer.At before after)
    (noneReturned : lexer.returned = []) (completed : complete token lexer = some (whole, rest)) :
    whole.position = token.position ∧ rest.returned = [] ∧
      ∃ more after', rest.At (before ++ more) after' := by
  unfold complete at completed
  split at completed
  · cases completed
  split at completed
  · obtain ⟨start, gives⟩ := rawText_eq stands
    split at completed
    · cases completed
    · rename_i text inner isText
      rw [isText] at gives
      obtain ⟨returned, before', after', isQuoted, stands⟩ := gives
      obtain ⟨more, -, -, -, -, rfl, -⟩ := quoted_eq_ok isQuoted
      split at completed
      · cases completed
      · rename_i quote behind isQuote
        obtain ⟨-, noneReturned, others, left, stands, -⟩ :=
          next_in_order stands (returned.trans noneReturned) isQuote
        split at completed
        · cases completed
          exact ⟨rfl, noneReturned, more ++ others, left, by simpa using stands⟩
        · cases completed
  · cases completed
    exact ⟨rfl, noneReturned, [], after, by simpa using stands⟩

theorem position_final (token : Token) (lexer : Lexer) :
    (final token lexer).position = token.position := by
  unfold final
  split
  · split <;> rfl
  · rfl

theorem lexemes_in_order {lexer : Lexer} (stands : lexer.At before after)
    (noneReturned : lexer.returned = []) :
    (lexer.lexemes.map Token.position).Pairwise (fun first second => first.before second = true) ∧
      ∀ position ∈ lexer.lexemes.map Token.position, Behind before position := by
  fun_induction lexemes lexer generalizing before after with
  | case1 lexer error rest isError => simp
  | case2 lexer token behind isNext completed =>
      simpa [position_final] using (next_in_order stands noneReturned isNext).1
  | case3 lexer token behind isNext whole rest completed fewer ih =>
      obtain ⟨isBehind, noneReturned, more, left, stands, first⟩ :=
        next_in_order stands noneReturned isNext
      obtain ⟨same, noneReturned, others, left, stands⟩ :=
        complete_in_order stands noneReturned completed
      obtain ⟨ordered, areBehind⟩ := ih stands noneReturned
      have notEnd := (remaining_complete completed).1
      rw [List.map_cons, same]
      refine ⟨List.pairwise_cons.2 ⟨fun position isIn => ?_, ordered⟩, fun position isIn => ?_⟩
      · exact first notEnd position (areBehind position isIn).ofAppend
      · rcases List.mem_cons.1 isIn with rfl | isIn
        · exact isBehind
        · exact (areBehind position isIn).ofAppend.ofAppend

end Lexer

/-! ### Headings in order -/

def Statement.forward? : Statement → Option Heading
  | .forward heading => some heading
  | _ => none

def forwardHeadings (statements : List Statement) : List Heading :=
  statements.filterMap Statement.forward?

theorem forwardHeadings_append (first second : List Statement) :
    forwardHeadings (first ++ second) = forwardHeadings first ++ forwardHeadings second :=
  List.filterMap_append

theorem mem_forwardHeadings {statements : List Statement} {heading : Heading} :
    heading ∈ forwardHeadings statements ↔ .forward heading ∈ statements := by
  rw [forwardHeadings, List.mem_filterMap]
  constructor
  · rintro ⟨statement, isIn, isForward⟩
    cases statement with
    | forward other => exact Option.some.inj isForward ▸ isIn
    | _ => cases isForward
  · exact fun isIn => ⟨_, isIn, rfl⟩

theorem forwardHeadings_of_storage {statements : List Statement}
    (storage : ∀ statement ∈ statements, statement.IsStorage) : forwardHeadings statements = [] := by
  refine List.filterMap_eq_nil_iff.2 fun statement isIn => ?_
  have isStorage := storage statement isIn
  cases statement with
  | forward heading => cases isStorage
  | _ => rfl

namespace Parse

open MiniPascal.Parser

variable {size fuel : Nat}

/-- The headings stand at lexemes between two parsers, in order. -/
def Marks (parser : Parser) (headings : List Heading) (rest : Parser) : Prop :=
  (headings.map Heading.position ++ rest.lexemes.map Token.position).Sublist
    (parser.lexemes.map Token.position)

theorem Marks.trans {parser middle rest : Parser} {first second : List Heading}
    (marks : Marks parser first middle) (marks' : Marks middle second rest) :
    Marks parser (first ++ second) rest := by
  rw [Marks, List.map_append, List.append_assoc]
  exact (marks'.append_left _).trans marks

theorem marks_of_leads {least : Nat} {parser rest : Parser} (leads : parser.Leads least rest) :
    Marks parser [] rest :=
  leads.suffix_.sublist.map _

theorem marks_current {parser rest : Parser} {heading : Heading} (leads : parser.Leads 1 rest)
    (same : heading.position = parser.current.position) : Marks parser [heading] rest := by
  obtain ⟨isSuffix, shorter⟩ := leads
  have first : ∃ whole others, parser.lexemes = whole :: others ∧
      whole.position = parser.current.position := by
    unfold lexemes Lexer.lexemesFrom
    split
    · exact ⟨_, _, rfl, Lexer.position_final _ _⟩
    · rename_i whole behind completed
      refine ⟨whole, _, rfl, ?_⟩
      unfold Lexer.complete at completed
      repeat' split at completed
      all_goals cases completed
      all_goals rfl
  obtain ⟨whole, others, isCons, isWhole⟩ := first
  have isSuffix : rest.lexemes <:+ others := by
    rw [isCons] at isSuffix shorter
    rcases List.suffix_cons_iff.1 isSuffix with isAll | isSuffix
    · rw [isAll] at shorter
      exact absurd shorter (Nat.not_succ_le_self _)
    · exact isSuffix
  rw [Marks, isCons, List.map_cons, List.map_cons, isWhole, same]
  exact (isSuffix.sublist.map _).cons_cons _

theorem position_heading {parser rest : Parser} {made : Heading}
    (isOk : heading fuel parser = .ok made rest) : made.position = parser.current.position := by
  obtain ⟨keyword, middle, isAdvance, isOk⟩ := bind_eq_ok.1 isOk
  obtain ⟨-, -, -, rfl, -⟩ := advance_eq_ok.1 isAdvance
  obtain ⟨name, middle, -, isOk⟩ := bind_eq_ok.1 isOk
  have end_ (groups : List VarGroup) (state : Parser) : Ensures (do
      if parser.current.kind = .procedureWord then
        return (⟨name, groups, none, parser.current.position⟩ : Heading)
      let _ ← expect .colon
      return ⟨name, groups, some (← ordinaryType), parser.current.position⟩)
      (fun made _ => made.position = parser.current.position) state := by
    split
    · exact ensures_pure.2 rfl
    · simp only [ensures_bind, ensures_pure]
      exact fun _ _ _ _ _ _ => trivial
  rw [kind_bind_apply] at isOk
  split at isOk
  · obtain ⟨groups, last, -, isOk⟩ := bind_eq_ok.1 isOk
    exact end_ groups last made rest isOk
  · exact end_ [] middle made rest isOk

theorem marks_callable {parser rest : Parser} {statement : Statement}
    (leads : parser.Leads 1 rest) (isOk : callable fuel parser = .ok statement rest) :
    Marks parser (forwardHeadings [statement]) rest := by
  obtain ⟨made, middle, isHeading, isOk⟩ := bind_eq_ok.1 isOk
  have same := position_heading isHeading
  obtain ⟨_, middle, -, isOk⟩ := bind_eq_ok.1 isOk
  rw [kind_bind_apply] at isOk
  split at isOk
  · obtain ⟨_, middle, -, isOk⟩ := bind_eq_ok.1 isOk
    obtain ⟨_, middle, -, isOk⟩ := bind_eq_ok.1 isOk
    obtain ⟨rfl, rfl⟩ := pure_eq_ok.1 isOk
    exact marks_current leads same
  · obtain ⟨_, middle, -, isOk⟩ := bind_eq_ok.1 isOk
    obtain ⟨_, middle, -, isOk⟩ := bind_eq_ok.1 isOk
    obtain ⟨_, middle, -, isOk⟩ := bind_eq_ok.1 isOk
    obtain ⟨rfl, rfl⟩ := pure_eq_ok.1 isOk
    exact marks_of_leads leads

theorem marks_topLevel {parser rest : Parser} {items? : Option (List Statement)}
    (sound : parser.Sound) (settled : parser.Settled) (bounded : parser.lexemes.length ≤ fuel)
    (isOk : topLevel? fuel parser = .ok items? rest) :
    rest.Settled ∧ parser.Leads 0 rest ∧ Marks parser (forwardHeadings (items?.getD [])) rest := by
  rw [topLevel?_eq, kind_bind_apply, kind_input] at isOk
  by_cases begins : Rule.BeginsTopLevel parser.current.kind
  · obtain ⟨leads, settled⟩ := (agree_topLevelAt bounded bounded begins).leads settled
      (Nat.le_refl _) rfl isOk
    refine ⟨settled, leads.weaken, ?_⟩
    rcases begins with (isFunction | isProcedure) | isVar | isConst
    · rw [isFunction] at isOk
      obtain ⟨statement, _, isCallable, isOk⟩ := bind_eq_ok.1 isOk
      obtain ⟨rfl, rfl⟩ := pure_eq_ok.1 isOk
      exact marks_callable leads isCallable
    · rw [isProcedure] at isOk
      obtain ⟨statement, _, isCallable, isOk⟩ := bind_eq_ok.1 isOk
      obtain ⟨rfl, rfl⟩ := pure_eq_ok.1 isOk
      exact marks_callable leads isCallable
    · rw [isVar] at isOk
      obtain ⟨items, _, isBlock, isOk⟩ := bind_eq_ok.1 isOk
      obtain ⟨rfl, rfl⟩ := pure_eq_ok.1 isOk
      rw [Option.getD_some, forwardHeadings_of_storage (yields_varBlock fuel _ sound _ _ isBlock).2.2]
      exact marks_of_leads leads
    · rw [isConst] at isOk
      obtain ⟨items, _, isBlock, isOk⟩ := bind_eq_ok.1 isOk
      obtain ⟨rfl, rfl⟩ := pure_eq_ok.1 isOk
      rw [Option.getD_some, forwardHeadings_of_storage (yields_constBlock fuel _ sound _ _ isBlock).2.2]
      exact marks_of_leads leads
  · have isNone : topLevelAt fuel parser.current.kind = pure none := by
      cases isKind : parser.current.kind with
      | functionWord | procedureWord | varWord | constWord =>
          simp [isKind, Rule.BeginsTopLevel, Rule.BeginsStorage] at begins
      | _ => rfl
    rw [isNone] at isOk
    obtain ⟨rfl, rfl⟩ := pure_eq_ok.1 isOk
    exact ⟨settled, .refl _, List.Sublist.refl _⟩

theorem marks_topLevels {parser rest : Parser} {count : Nat} {blocks : List (List Statement)}
    (sound : parser.Sound) (settled : parser.Settled) (bounded : parser.lexemes.length ≤ fuel)
    (isOk : many count (topLevel? fuel) parser = .ok blocks rest) :
    Marks parser (forwardHeadings blocks.flatten) rest := by
  induction count generalizing parser blocks with
  | zero => cases isOk
  | succ count ih =>
      obtain ⟨items?, middle, isItem, isOk⟩ := bind_eq_ok.1 isOk
      have middleSound := (ensures_topLevel fuel sound items? middle isItem).1
      obtain ⟨middleSettled, leads, marks⟩ := marks_topLevel sound settled bounded isItem
      cases items? with
      | none =>
          obtain ⟨rfl, rfl⟩ := pure_eq_ok.1 isOk
          exact marks
      | some items =>
          obtain ⟨others, last, isOthers, isOk⟩ := bind_eq_ok.1 isOk
          obtain ⟨rfl, rfl⟩ := pure_eq_ok.1 isOk
          have fewer := leads.shorter
          rw [List.flatten_cons, forwardHeadings_append]
          exact marks.trans (ih middleSound middleSettled (by omega) isOthers)

theorem programStatements_in_order {parser rest : Parser} {statements : List Statement}
    (sound : parser.Sound) (settled : parser.Settled) (bounded : parser.lexemes.length ≤ fuel)
    (isOk : programStatements fuel parser = .ok statements rest) :
    ((forwardHeadings statements).map Heading.position).Sublist
      (parser.lexemes.map Token.position) := by
  obtain ⟨header, first, isHeader, isOk⟩ := bind_eq_ok.1 isOk
  obtain ⟨leads, firstSettled⟩ := agree_programHeader.leads settled (Nat.le_refl _) trivial isHeader
  obtain ⟨firstSound, -, cases_⟩ := yields_programHeader _ sound _ _ isHeader
  obtain ⟨blocks, second, isBlocks, isOk⟩ := bind_eq_ok.1 isOk
  obtain ⟨body, third, -, isOk⟩ := bind_eq_ok.1 isOk
  obtain ⟨_, _, -, isOk⟩ := bind_eq_ok.1 isOk
  obtain ⟨rfl, rfl⟩ := pure_eq_ok.1 isOk
  have fewer := leads.shorter
  have marks := (marks_of_leads leads).trans
    (marks_topLevels firstSound firstSettled (by omega) isBlocks)
  have noHeader : forwardHeadings header = [] := by
    rcases cases_ with rfl | ⟨name, -, rfl⟩ <;> rfl
  rw [forwardHeadings_append, forwardHeadings_append, noHeader]
  refine List.Sublist.trans ?_ marks
  simp [forwardHeadings, mainCallable, Statement.forward?]

end Parse

theorem Parser.ofText_cases (text : String) :
    (∃ parser, Parser.ofText text = .ok parser ∧ parser.lexemes = (Lexer.ofText text).lexemes ∧
      parser.ending = (Lexer.ofText text).ending ∧ parser.nextLoop = 0 ∧ parser.Settled ∧
      parser.Sound) ∨
    ∃ error, Parser.ofText text = .error (.lexical error) ∧ (Lexer.ofText text).lexemes = [] ∧
      (Lexer.ofText text).ending = some error := by
  rw [Parser.ofText, Parser.ofReader,
    show Lexer.ofReader (Reader.ofText text) = Lexer.ofText text from rfl]
  cases isNext : (Lexer.ofText text).next with
  | ok token lexer =>
      refine .inl ⟨_, rfl, (Lexer.lexemes_of_next isNext).symm, (Lexer.ending_of_next isNext).symm, rfl,
        settled_of_returned ((Lexer.returned_next isNext).trans rfl), ?_⟩
      exact Lexer.ensures_next (Lexer.sound_ofReader _) token lexer isNext
  | error error lexer =>
      exact .inr ⟨error, rfl, Lexer.lexemes_of_error isNext, Lexer.ending_of_error isNext⟩

theorem Program.forwards_in_order {text : String} {program : Program}
    (parsed : Program.parse text = .ok program) :
    (forwardHeadings program.statements).Pairwise fun first second =>
      first.position.before second.position = true := by
  rcases Parser.ofText_cases text with ⟨parser, isParser, lexemes, -, -, settled, sound⟩ |
      ⟨error, isError, -, -⟩
  · unfold Program.parse at parsed
    rw [isParser] at parsed
    dsimp only at parsed
    split at parsed
    · rename_i result rest isProgram
      cases parsed
      obtain ⟨_, _, isGet, isProgram⟩ := bind_eq_ok.1 isProgram
      obtain ⟨rfl, rfl⟩ := get_eq_ok.1 isGet
      rw [Parse.programWith_eq] at isProgram
      obtain ⟨statements, middle, isStatements, isProgram⟩ := bind_eq_ok.1 isProgram
      obtain ⟨_, _, -, isProgram⟩ := bind_eq_ok.1 isProgram
      obtain ⟨rfl, rfl⟩ := pure_eq_ok.1 isProgram
      have bounded := parser.input_size_le_fuel
      rw [Input.size, Parser.input, List.length_map] at bounded
      have ordered := (Lexer.lexemes_in_order (Lexer.at_ofText text) rfl).1
      rw [← lexemes] at ordered
      exact List.pairwise_map.1 (ordered.sublist
        (Parse.programStatements_in_order sound settled bounded isStatements))
    · cases parsed
  · unfold Program.parse at parsed
    rw [isError] at parsed
    cases parsed

end MiniPascal
