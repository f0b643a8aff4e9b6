import Boxlang.Llvm.Code

/-!
# How code is written

The textual form of functions.  Every instruction stands on a line of its own,
after two blanks; a label stands on a line before its block.
-/

namespace Boxlang.Llvm

def commaSeparated (parts : List String) : String :=
  ", ".intercalate parts

namespace LType

mutual

def text : LType → String
  | .void => "void"
  | .int bits => s!"i{bits}"
  | .double => "double"
  | .ptr => "ptr"
  | .words count => s!"[{count} x i64]"
  | .struct fields => "\x7b " ++ commaSeparated (textAll fields) ++ " \x7d"
  | .box => "%ember.box"

def textAll : List LType → List String
  | [] => []
  | t :: ts => text t :: textAll ts

end

theorem textAll_eq_map (ts : List LType) : textAll ts = ts.map text := by
  induction ts with
  | nil => rfl
  | cons t ts ih => simp [textAll, ih]

end LType

def Operand.text : Operand → String
  | .none => ""
  | .register n => s!"%v{n}"
  | .param n => s!"%p{n}"
  | .receiver => "%this"
  | .context => "%ctx"
  | .global g => g.text
  | .null => "null"
  | .undef => "undef"
  | .zero => "zeroinitializer"
  | .int value => toString value
  | .bool value => if value then "true" else "false"
  | .real bits => "0x" ++ hexWord bits

def Value.text (v : Value) : String :=
  v.type.text ++ " " ++ v.operand.text

def BlockRole.text : BlockRole → String
  | .checkFail => "check.fail"
  | .checkOk => "check.ok"
  | .boxSome => "box.some"
  | .boxNone => "box.none"
  | .boxJoin => "box.join"
  | .unboxSome => "unbox.some"
  | .unboxNone => "unbox.none"
  | .unboxJoin => "unbox.join"

def Label.text : Label → String
  | .entry => "entry"
  | .numbered role n => s!"{role.text}.{n}"

def Relation.text : Relation → String
  | .eq => "eq"
  | .ne => "ne"

def argumentText (args : List Value) : String :=
  "(" ++ commaSeparated (args.map Value.text) ++ ")"

namespace Instr

def rightText : Instr → String
  | .address _ type base indices =>
    "getelementptr " ++ type.text ++ ", ptr " ++ base.text
      ++ String.join (indices.map fun i => s!", i32 {i}")
  | .pointerToInt _ pointer => "ptrtoint ptr " ++ pointer.text ++ " to i64"
  | .load _ type pointer => "load " ++ type.text ++ ", ptr " ++ pointer.text
  | .store value pointer => "store " ++ value.text ++ ", ptr " ++ pointer.text
  | .alloca _ type => "alloca " ++ type.text
  | .compare _ relation value other =>
    "icmp " ++ relation.text ++ " " ++ value.text ++ ", " ++ other.text
  | .negate _ value => "xor i1 " ++ value.text ++ ", true"
  | .extractValue _ aggregate index => s!"extractvalue {aggregate.text}, {index}"
  | .insertValue _ aggregate element index =>
    s!"insertvalue {aggregate.text}, {element.text}, {index}"
  | .call _ ret callee args => "call " ++ ret.text ++ " " ++ callee.text ++ argumentText args
  | .callVoid callee args => "call void " ++ callee.text ++ argumentText args
  | .phi _ type incoming =>
    "phi " ++ type.text ++ " " ++ commaSeparated
      (incoming.map fun (operand, label) => "[ " ++ operand.text ++ ", %" ++ label.text ++ " ]")

def text (i : Instr) : String :=
  match i.dst? with
  | some dst => s!"%v{dst} = " ++ i.rightText
  | none => i.rightText

end Instr

def Terminator.text : Terminator → String
  | .jump target => "br label %" ++ target.text
  | .branch condition ifTrue ifFalse =>
    "br i1 " ++ condition.text ++ ", label %" ++ ifTrue.text ++ ", label %" ++ ifFalse.text
  | .ret value => "ret " ++ value.text
  | .retVoid => "ret void"
  | .unreachable => "unreachable"

def Block.lines (b : Block) : List String :=
  (b.label.text ++ ":") :: (b.body.map fun i => "  " ++ i.text) ++ ["  " ++ b.exit.text]

def unlines (lines : List String) : String :=
  String.join (lines.map (· ++ "\n"))

def FunctionDef.text (f : FunctionDef) : String :=
  "define " ++ f.ret.text ++ " " ++ (Global.mk f.name).text ++ argumentText f.params ++ " \x7b\n"
    ++ unlines (f.blocks.flatMap Block.lines) ++ "\x7d\n\n"

end Boxlang.Llvm
