import MiniPascal.Proofs.Evaluation.Basic
import MiniPascal.Proofs.Simulation.Memory
import MiniPascal.Proofs.Text.Utf8

/-!
# Texts of a running program

A global that holds a text reads as the text in front of the first NUL character, and the formats
of the built-in callables print or read what the callables are for.
-/

namespace MiniPascal.Machine

open Evaluation (printed)

namespace Cells

theorem bytesFrom_ofList (values : List Int32) (index : Nat) :
    (ofList values).bytesFrom index =
      ((values.drop index).takeWhile (· ≠ 0)).map fun value => value.toUInt32.toUInt8 := by
  rw [bytesFrom, size_ofList]
  by_cases inside : index < values.length
  · rw [if_pos inside, List.drop_eq_getElem_cons inside]
    have isValue : (ofList values).get index = values[index] := by
      rw [get_ofList, List.getElem?_eq_getElem inside, Option.getD_some]
    simp only [isValue]
    by_cases isZero : values[index] = 0
    · rw [if_pos isZero, List.takeWhile_cons_of_neg (by simp [isZero]), List.map_nil]
    · rw [if_neg isZero, bytesFrom_ofList values (index + 1),
        List.takeWhile_cons_of_pos (by simpa using isZero), List.map_cons]
  · rw [if_neg inside, List.drop_eq_nil_of_le (by omega)]
    rfl
termination_by values.length - index

private theorem ofNat_eq_zero {byte : UInt8} : Int32.ofNat byte.toNat = 0 ↔ byte = 0 := by
  have bound := byte.toNat_lt
  constructor
  · intro isZero
    have same : (Int32.ofNat byte.toNat).toInt = 0 := by rw [isZero]; rfl
    rw [Int32.toInt_ofNat_of_lt (by omega)] at same
    apply UInt8.toNat_inj.1
    change byte.toNat = 0
    omega
  · rintro rfl
    rfl

private theorem toUInt8_ofNat (byte : UInt8) :
    (Int32.ofNat byte.toNat).toUInt32.toUInt8 = byte := by
  have bound := byte.toNat_lt
  have same : (Int32.ofNat byte.toNat).toUInt32 = UInt32.ofNat byte.toNat := rfl
  apply UInt8.toNat_inj.1
  rw [same, UInt32.toNat_toUInt8, UInt32.toNat_ofNat_of_lt' (by simp only [UInt32.size]; omega), Nat.mod_eq_of_lt bound]

private theorem takeWhile_map_ofNat (bytes : List UInt8) (rest : List Int32) :
    ((bytes.map fun byte => Int32.ofNat byte.toNat) ++ 0 :: rest).takeWhile (· ≠ 0) =
      (bytes.takeWhile (· ≠ 0)).map fun byte => Int32.ofNat byte.toNat := by
  induction bytes with
  | nil => simp
  | cons byte bytes ih =>
      by_cases isZero : byte = 0
      · simp [isZero]
      · have notZero : Int32.ofNat byte.toNat ≠ 0 := fun same => isZero (ofNat_eq_zero.1 same)
        rw [List.map_cons, List.cons_append, List.takeWhile_cons_of_pos (by simpa using notZero), ih,
          List.takeWhile_cons_of_pos (by simpa using isZero), List.map_cons]

private theorem takeWhile_flatMap (chars : List Char) :
    (chars.flatMap String.utf8EncodeChar).takeWhile (· ≠ 0) =
      (chars.takeWhile (· ≠ '\x00')).flatMap String.utf8EncodeChar := by
  induction chars with
  | nil => rfl
  | cons char chars ih =>
      by_cases isZero : char = '\x00'
      · subst isZero
        rfl
      · have noZero : ∀ byte ∈ String.utf8EncodeChar char, decide (byte ≠ 0) = true := by
          intro byte isIn
          apply decide_eq_true
          rintro rfl
          exact isZero (Text.eq_of_mem_utf8EncodeChar (by decide) isIn)
        have notZero : decide (char ≠ '\x00') = true := decide_eq_true isZero
        rw [List.flatMap_cons, List.takeWhile_append_of_pos noZero, ih, List.takeWhile_cons, notZero]
        rfl

theorem text_ofContent (text : String) : (ofContent (.bytes text)).text 0 = printed text := by
  have values : ofContent (.bytes text) = ofList
      ((text.toUTF8.toList.map fun byte => Int32.ofNat byte.toNat) ++ 0 :: []) := rfl
  rw [values, Cells.text, if_neg (by decide), Int.toNat_zero, bytesFrom_ofList, List.drop_zero,
    takeWhile_map_ofNat, List.map_map, Text.toList_toUTF8, takeWhile_flatMap]
  have same : ((fun value : Int32 => value.toUInt32.toUInt8) ∘ fun byte : UInt8 =>
      Int32.ofNat byte.toNat) = id := funext toUInt8_ofNat
  rw [same, List.map_id, Text.decode, Text.decodeFrom_flatMap]
  rfl

end Cells

namespace Run

variable {ir : IR.Module} {state : State} {function : IR.FunctionId} {id : IR.GlobalId}

theorem text_of_global {content : String}
    (isGlobal : state.globals[id]? = some (Cells.ofContent (.bytes content))) :
    text (.pointer (.global id 0)) state = .ok (printed content) state := by
  simp only [text, isGlobal, Cells.text_ofContent]

theorem callExternal_printf {content : String} {arguments : List Word} {output : List Char}
    (isName : ir.functionName function = "printf")
    (isGlobal : state.globals[id]? = some (Cells.ofContent (.bytes content)))
    (formatted : format (printed content).toList arguments state = .ok output state) :
    callExternal ir function (.pointer (.global id 0) :: arguments) state =
      .ok (.int (Int32.ofNat (String.ofList output).utf8ByteSize))
        { state with console := state.console.print (String.ofList output) } := by
  simp only [callExternal, isName]
  simp only [bind_run, text_of_global isGlobal, if_true, formatted]
  rfl

theorem callExternal_writeln (isName : ir.functionName function = "printf")
    (isGlobal : state.globals[id]? = some (Cells.ofContent (.bytes "%d\n"))) (value : Int32) :
    callExternal ir function [.pointer (.global id 0), .int value] state =
      .ok (.int (Int32.ofNat (toString value ++ "\n").utf8ByteSize))
        { state with console := state.console.print (toString value ++ "\n") } := by
  have same : toString value ++ "\n" = String.ofList ((toString value).toList ++ ['\n']) := by
    rw [String.ofList_append, String.ofList_toList]
  rw [same]
  refine callExternal_printf isName isGlobal ?_
  rfl

theorem callExternal_write (isName : ir.functionName function = "printf")
    (isGlobal : state.globals[id]? = some (Cells.ofContent (.bytes "%s"))) {other : IR.GlobalId}
    {content : String}
    (isOther : state.globals[other]? = some (Cells.ofContent (.bytes content))) :
    callExternal ir function [.pointer (.global id 0), .pointer (.global other 0)] state =
      .ok (.int (Int32.ofNat (printed content).utf8ByteSize))
        { state with console := state.console.print (printed content) } := by
  have formatted : format (printed "%s").toList [.pointer (.global other 0)] state =
      .ok ((printed content).toList ++ []) state := by
    change (convert .text (.pointer (.global other 0)) >>= fun first => (do
      return first.toList ++ (← format [] []))) state = _
    simp only [bind_run, convert, text_of_global isOther]
    rfl
  have printf := callExternal_printf isName isGlobal formatted
  rwa [List.append_nil, String.ofList_toList] at printf

theorem callExternal_readln (isName : ir.functionName function = "scanf")
    (isGlobal : state.globals[id]? = some (Cells.ofContent (.bytes "%d"))) (pointer : Pointer) :
    callExternal ir function [.pointer (.global id 0), .pointer pointer] state =
      match state.console.read with
      | (none, console) => .ok (.int (-1)) { state with console := console }
      | (some value, console) =>
          match store ir function pointer value { state with console := console } with
          | .ok _ state => .ok (.int 1) state
          | .error halt state => .error halt state := by
  have notPrintf : ¬ "scanf" = "printf" := by decide
  have one : conversions (printed "%d").toList = 1 := rfl
  simp only [callExternal, isName]
  simp only [bind_run, text_of_global isGlobal, if_neg notPrintf, if_true, one,
    List.take_succ_cons, List.take_zero, scan, readInt]
  generalize state.console.read = found
  obtain ⟨value?, console⟩ := found
  cases value? with
  | none => rfl
  | some value =>
      simp only [bind_run]
      cases store ir function pointer value { state with console := console } with
      | ok _ state => rfl
      | error halt state => rfl

end Run

end MiniPascal.Machine
