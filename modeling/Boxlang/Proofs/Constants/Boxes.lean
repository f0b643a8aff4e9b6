import Boxlang.Emit.Package
import Boxlang.Proofs.Analysis.Erasure
import Boxlang.Proofs.Emit.Tags
import Boxlang.Proofs.Invariants.Literals
import Boxlang.Proofs.Layout.RoundTrip
import Std.Data.String.ToInt

/-!
# Boxes of literals

A literal that analysis puts in a box is not stored there when the program runs: its box is a
constant, whose words are written as signed numerals.  Read back, they are the image of the literal,
and the tag is the one with which a box would be allocated for it (`FoldsAs`).  Such a box has the
word of the literal where the code stores and loads one that is held inline.
-/

namespace Boxlang

open Llvm

namespace Llvm

/-! ### Reading constants -/

/-- The word that a decimal numeral of 64 bits stands for; the negative ones are counted from the top. -/
def wordOfNumeral? (numeral : String) : Option UInt64 :=
  numeral.toInt?.map UInt64.ofInt

/-- A number stands for the word that it is the same as up to multiples of the number of words. -/
theorem ofInt_eq {value : Int} {word : UInt64} (h : value % (2 ^ 64 : Nat) = word.toNat) :
    UInt64.ofInt value = word := by
  show UInt64.ofNat (value % (2 ^ 64 : Nat)).toNat = word
  rw [h, Int.toNat_natCast, UInt64.ofNat_toNat]

theorem ofInt_toInt_toInt64 (word : UInt64) : UInt64.ofInt word.toInt64.toInt = word := by
  have hsigned : word.toInt64.toInt = (word.toNat : Int).bmod (2 ^ 64) := BitVec.toInt_eq_toNat_bmod _
  have hlt : word.toNat < 2 ^ 64 := word.toNat_lt
  refine ofInt_eq ?_
  rw [hsigned, Int.bmod_emod]
  omega

theorem ofInt_toInt (value : Int64) : UInt64.ofInt value.toInt = value.toUInt64 := by
  simpa using ofInt_toInt_toInt64 value.toUInt64

theorem ofInt_toNat (c : Char) : UInt64.ofInt c.toNat = c.val.toUInt64 := by
  have hlt : c.toNat < 2 ^ 32 := c.val.toNat_lt
  have hword : c.val.toUInt64.toNat = c.toNat := UInt32.toNat_toUInt64 c.val
  exact ofInt_eq (by omega)

theorem wordOfNumeral?_signed (word : UInt64) : wordOfNumeral? (toString word.toInt64.toInt) = some word := by
  have hread : (toString word.toInt64.toInt).toInt? = some word.toInt64.toInt := Int.toInt?_repr _
  rw [wordOfNumeral?, hread, Option.map_some, ofInt_toInt_toInt64]

def DefinesBox (line : String) (symbol : Global) (tag : Operand) (words : List UInt64) : Prop :=
  ∃ numerals : List String, numerals.map wordOfNumeral? = words.map some ∧
    line = symbol.text ++ " = private unnamed_addr constant %ember.box \x7b ptr " ++ tag.text
      ++ ", [" ++ toString words.length ++ " x i64] ["
      ++ commaSeparated (numerals.map ("i64 " ++ ·)) ++ "] \x7d"

def Value.constantWord? : Value → Option UInt64
  | ⟨.int _, .int value⟩ => some (.ofInt value)
  | ⟨.int _, .bool value⟩ => some (if value then 1 else 0)
  | ⟨.double, .real bits⟩ => some bits
  | _ => none

/-! ### What code does to the words of a box -/

def valueFields (code : List Instr) (box : Operand) : List Nat :=
  code.filterMap fun
    | .address dst _ base indices => if base = box ∧ indices = [0, 1] then some dst else none
    | _ => none

def storedValues (code : List Instr) (box : Operand) : List Value :=
  code.filterMap fun
    | .store value (.register r) => if r ∈ valueFields code box then some value else none
    | _ => none

def loadedValues (code : List Instr) (box : Operand) : List Value :=
  code.filterMap fun
    | .load dst type (.register r) => if r ∈ valueFields code box then some ⟨type, .register dst⟩ else none
    | _ => none

end Llvm

/-! ### Types of literals -/

/-- A type whose values are one word and are held natively; no class is one. -/
structure Ty.IsOneWord (t : Ty) : Prop where
  unboxed : t.unboxed = t
  words : ∀ d : Declarations, d.wordsOf t = 1
  not_isVoid : ∀ d : Declarations, (d.llvmType t).isVoid = false
  ne_object : ∀ name args, t.unboxed ≠ .object name args

namespace Emit

variable {env : FunctionEnv} {n : Nat} {w : World} {t : Ty} {v : SimpleValue} {inner : Slot}

theorem exists_isOf_of_literal? {k : ExprKind} (h : literal? k = some v) :
    ∃ t, k.literalType? = some t ∧ v.IsOf t ∧ t.IsOneWord := by
  cases k <;> cases h
  case int value => exact ⟨_, rfl, .int value, rfl, fun _ => rfl, fun _ => rfl, nofun⟩
  case real bits => exact ⟨_, rfl, .real bits, rfl, fun _ => rfl, fun _ => rfl, nofun⟩
  case bool value => exact ⟨_, rfl, .bool value, rfl, fun _ => rfl, fun _ => rfl, nofun⟩
  case symbol value => exact ⟨_, rfl, .symbol value, rfl, fun _ => rfl, fun _ => rfl, nofun⟩

theorem length_toWords_of_literal? {k : ExprKind} (h : literal? k = some v) : v.toWords.length = 1 := by
  cases k <;> cases h <;> rfl

/-! ### The code for a box of one word -/

section Inline

variable {box : Operand} {value : Value}

theorem writes_storeInBox_inline (hvoid : value.isVoid = false)
    (hinline : env.package.declarations.storedInline t = true) {Q : Unit → Nat → List Instr → Prop}
    (h : Q () (n + 1) [.address n .box box [0, 1], .store value (.register n)]) :
    Writes env n (storeInBox box value t) Q := by
  unfold storeInBox
  rw [hvoid]
  refine .bind (.define (.bind (.storedInline ?_)))
  rw [hinline]
  exact .emit h

theorem writes_loadFromBox_inline (hvoid : (env.package.declarations.llvmType t).isVoid = false)
    (hinline : env.package.declarations.storedInline t = true) :
    Writes env n (loadFromBox box t) fun loaded _ new =>
      loadedValues new box = [loaded] ∧ loaded.type = env.package.declarations.llvmType t := by
  refine .bind (.llvmType ?_)
  rw [hvoid]
  refine .bind (.define (.bind (.storedInline ?_)))
  rw [hinline]
  refine .bind (.pure (.bind (.define (.pure ⟨?_, rfl⟩))))
  simp [loadedValues, valueFields]

/-- A box is allocated, gets the meta of the type as its tag, and holds the value at its words. -/
theorem writes_realizeBox_inline (hvoid : value.isVoid = false)
    (hinline : env.package.declarations.storedInline t = true)
    (hne : ∀ name args, t.unboxed ≠ .object name args) :
    Writes env n (realizeBox value t none) fun box _ new =>
      storedTags new box.operand = [.global (metaGlobal t.metaName)] ∧
        storedValues new box.operand = [value] := by
  refine .bind (writes_alloc fun args => .bind (writes_boxTag (fun name targs ht => ?_) fun _ => ?_))
  · exact (hne name targs ht).elim
  · refine .bind (.define (.bind (.emit (.bind (writes_storeInBox_inline hvoid hinline (.pure ?_))))))
    simp [storedTags, storedValues, tagFields, valueFields, Value.pointer]

end Inline

/-! ### The constant of a literal -/

theorem line_constantBox (symbol : Global) (tag : Operand) (words : Vector UInt64 boxValueWords) :
    DefinesBox (ConstantBox.line symbol { tag, words }) symbol tag words.toList := by
  refine ⟨words.toList.map (toString ·.toInt64.toInt), ?_, ?_⟩
  · rw [List.map_map]
    exact List.map_congr_left fun word _ => wordOfNumeral?_signed word
  · have hlength : words.toList.length = 4 := words.length_toList
    simp only [ConstantBox.line, hlength, List.map_map, String.append_assoc]
    rfl

/-- A word above all signed numbers is written as a negative one. -/
example :
    let box : ConstantBox := ⟨.global (metaGlobal "Real"), BoxImage.padded [0xfff8000000000001]⟩
    box.line (boxGlobal 0) = "@.box.0 = private unnamed_addr constant %ember.box \x7b ptr @ember.meta.Real, "
      ++ "[4 x i64] [i64 -2251799813685247, i64 0, i64 0, i64 0] \x7d" := by
  decide +kernel

theorem exists_line_constantBox {s s' : ModuleState} {tag : Operand} {image : BoxImage}
    (hs : ((constantBox tag image).run s).2.Within s') :
    ∃ line ∈ s'.constantLines, DefinesBox line ((constantBox tag image).run s).1 tag image.words.toList := by
  obtain ⟨more, hmore⟩ := hs.boxes
  have hbox : s'.boxes[s.boxes.length]? = some { tag, words := image.words } := by
    rw [← hmore]
    show (s.boxes ++ [_] ++ more)[s.boxes.length]? = _
    simp
  have hmem : ((⟨tag, image.words⟩ : ConstantBox), s.boxes.length) ∈ s'.boxes.zipIdx :=
    List.mem_zipIdx_iff_getElem?.mpr hbox
  refine ⟨_, ?_, line_constantBox (boxGlobal s.boxes.length) tag image.words⟩
  unfold ModuleState.constantLines
  simp only [List.mem_append, List.mem_map]
  exact .inl (.inr ⟨_, hmem, rfl⟩)

/-- Boxing a literal gives the address of a new constant, and no code. -/
theorem runIn_foldBoxed?_literal {k : ExprKind} (h : literal? k = some v) :
    (foldBoxed? (.box t none) k).runIn env w =
      let tagged := ((metaSymbol t).run w.refs).2
      let made := (constantBox (.global (metaGlobal t.metaName)) (.encode someAddress v)).run tagged
      (.ok (some (.pointer (.global made.1))), ⟨w.function, made.2⟩) := by
  simp only [foldBoxed?, h, runIn_bind, runIn_liftM, runIn_pure, metaSymbol_run_fst]

/-! ### Both ways of boxing a literal -/

/-- The code of a conversion where nothing is folded. -/
def genUnfolded (generate : Generate) (inner : Slot) (op : Conversion) (t : Ty) : Emit Value := do
  let value ← generate inner
  realize op value (← typeOf inner) t

theorem runIn_node (slot : Slot) : (node slot).runIn env w = (.ok (env.arena.get slot), w) := rfl

theorem runIn_typeOf (htype : (env.arena.get inner).type? = some t) :
    (typeOf inner).runIn env w = (.ok t, w) := by
  unfold typeOf
  simp only [runIn_bind, runIn_node, htype, runIn_pure]

theorem runIn_genConversion {op : Conversion} {folded? : Option Value} {w' : World} (generate : Generate)
    (target : Ty) (h : (foldBoxed? op (env.arena.get inner).kind).runIn env w = (.ok folded?, w')) :
    (genConversion generate inner op target).runIn env w =
      (folded?.elim (genUnfolded generate inner op target) pure).runIn env w' := by
  unfold genConversion
  rw [runIn_bind, runIn_node]
  dsimp only
  rw [runIn_bind, h]
  cases folded? <;> rfl

theorem exists_runIn_genNode_literal (hliteral : literal? (env.arena.get inner).kind = some v)
    (htype : (env.arena.get inner).type? = some t) (hv : v.IsOf t) (generate : Generate) :
    ∃ value, (∀ w, (genNode generate inner).runIn env w = (.ok value, w)) ∧
      value.type = env.package.declarations.llvmType t ∧ value.constantWord? = v.toWords.head? := by
  unfold genNode
  simp only [runIn_bind, runIn_node, runIn_typeOf htype]
  generalize (env.arena.get inner).kind = k at hliteral
  cases k <;> cases hliteral <;> cases hv
  case int value => exact ⟨_, fun _ => rfl, rfl, congrArg some (ofInt_toInt value)⟩
  case real => exact ⟨_, fun _ => rfl, rfl, rfl⟩
  case bool => exact ⟨_, fun _ => rfl, rfl, rfl⟩
  case symbol value => exact ⟨_, fun _ => rfl, rfl, congrArg some (ofInt_toNat value)⟩

/--
The constant box that is made for the literal `v` of type `t` has the tag and the words that a box
would have that is allocated for it.
-/
structure FoldsAs (env : FunctionEnv) (inner : Slot) (t : Ty) (v : SimpleValue) (tag : Operand)
    (words : Vector UInt64 boxValueWords) : Prop where
  /-- The conversion is the address of a constant with the tag and the words, and has no code. -/
  folded : ∀ generate target w, ∃ x w',
    (foldBoxed? (.box t none) (env.arena.get inner).kind).runIn env w = (.ok (some (.pointer (.global x))), w') ∧
      (genConversion generate inner (.box t none) target).runIn env w = (.ok (.pointer (.global x)), w') ∧
      w'.function = w.function ∧
      ∀ s, w'.refs.Within s → ∃ line ∈ s.constantLines, DefinesBox line x tag words.toList
  /-- Wherever its tag is, a box with the words holds the literal, and no words outside of it. -/
  image : ∀ address : Address, BoxImage.encode address v = { tag := address.word, words }
  decoded : ∀ address : Address,
    BoxImage.decode { tag := address.word, words } t (env.package.declarations.wordsOf t) = .ok (some v)
  inline : env.package.declarations.storedInline t = true
  /-- Without folding, a box gets the tag, and at its first word a constant that is the word there. -/
  allocated : ∀ bound target n,
    Writes env n (genUnfolded (genExprWithin (bound + 1)) inner (.box t none) target) fun box _ new =>
      storedTags new box.operand = [tag] ∧ ∃ value, storedValues new box.operand = [value] ∧
        value.type = env.package.declarations.llvmType t ∧ value.constantWord? = words[0]?
  /-- What is loaded from such a box is a value of the type at its first word. -/
  loaded : ∀ box n, Writes env n (loadFromBox box t) fun value _ new =>
    loadedValues new box = [value] ∧ value.type = env.package.declarations.llvmType t

theorem foldsAs_of_literal? (hliteral : literal? (env.arena.get inner).kind = some v)
    (htype : (env.arena.get inner).type? = some t) (hv : v.IsOf t) (ht : t.IsOneWord) :
    FoldsAs env inner t v (.global (metaGlobal t.metaName)) (BoxImage.padded v.toWords) := by
  have hinline : env.package.declarations.storedInline t = true := by
    simp [Declarations.storedInline, ht.words, boxValueWords]
  have hvoid := ht.not_isVoid env.package.declarations
  have hlength := length_toWords_of_literal? hliteral
  have himage (address : Address) : BoxImage.encode address v = ⟨address.word, BoxImage.padded v.toWords, none⟩ := by
    simp [BoxImage.encode, hlength, boxValueWords]
  refine ⟨fun generate target w => ?_, himage, fun address => ?_, hinline, fun bound target n => ?_,
    fun box n => writes_loadFromBox_inline hvoid hinline⟩
  · have hwords : (BoxImage.encode someAddress v).words = BoxImage.padded v.toWords := by rw [himage]
    rw [← hwords]
    refine ⟨_, _, runIn_foldBoxed?_literal hliteral, ?_, rfl, fun s hs => exists_line_constantBox hs⟩
    exact runIn_genConversion generate target (runIn_foldBoxed?_literal hliteral)
  · rw [← himage, ht.words, ← hlength]
    exact BoxImage.decode_encode (ht.unboxed.symm ▸ hv) address
  · obtain ⟨value, hrun, htyped, hconstant⟩ :=
      exists_runIn_genNode_literal hliteral htype hv (genExprWithin bound)
    refine .bind (.of_runIn (g := id) hrun (fun _ => rfl) (fun _ => rfl) fun _ => .bind ?_)
    refine .of_runIn (g := id) (fun _ => runIn_typeOf htype) (fun _ => rfl) (fun _ => rfl) fun _ => ?_
    have hvalue : value.isVoid = false := (congrArg LType.isVoid htyped).trans hvoid
    refine (writes_realizeBox_inline hvalue hinline ht.ne_object).mono fun box m new hnew => ?_
    refine ⟨hnew.1, value, hnew.2, htyped, ?_⟩
    obtain ⟨word, hword⟩ := List.length_eq_one_iff.mp hlength
    rw [hconstant, hword]
    rfl

end Emit

/-! ### Boxes that analysis asks for -/

/--
A literal that analysis puts in a box, other than as a protocol, is put there as a value of its own
type.  Its constant box has the meta that an allocated box would get as its tag, and its words are
read back as the literal, which is held inline at the first word as in an allocated box.

The body may have literals that are typed already, as what they are, and conversions already: what
analysis converts is behind all the nodes that the body had.
-/
theorem Package.foldsAs_of_analyseDefinition (p : Package) (warnDeprecated : Bool) (reports : List Report)
    {definition : Definition} (hin : definition.body.InRange)
    (hb : definition.body.arena.TypesLiterals) :
    let arena := (p.analyseDefinition warnDeprecated reports definition).1.body.arena
    ∀ slot inner t v, (arena.get slot).kind = .conversion inner (.box t none) →
      definition.body.arena.size ≤ inner →
      Emit.literal? (arena.get inner).kind = some v →
      (arena.get inner).type? = some t ∧ v.IsOf t ∧
        ∀ env : Emit.FunctionEnv, env.arena = arena →
          Emit.FoldsAs env inner t v (.global (Emit.metaGlobal t.metaName)) (BoxImage.padded v.toWords) := by
  intro arena slot inner t v hslot hle hliteral
  have hboxes : arena.BoxesLiterals definition.body.arena.size :=
    p.boxesLiterals_analyseDefinition warnDeprecated reports hin hb
  obtain ⟨u, hu, hv, hone⟩ := Emit.exists_isOf_of_literal? hliteral
  obtain ⟨htype, rfl⟩ := (hboxes.boxed slot inner t none hslot hle).2 u hu
  exact ⟨htype, hv, fun env henv => Emit.foldsAs_of_literal? (henv ▸ hliteral) (henv ▸ htype) hv hone⟩

/-- The body of `show(x)`, where `x` is a real that is not a number. -/
def shownReal : Definition where
  function := 1
  body :=
    { arena := { nodes := #[
        { span := ⟨5, 1⟩, kind := .real 0xfff8000000000001 },
        { span := ⟨0, 7⟩, kind := .call ⟨"show", ⟨0, 4⟩⟩ { span := ⟨5, 1⟩, args := [0] } none }] }
      stmts := [.expr 1] }

theorem isFresh_shownReal : shownReal.body.IsFresh := by
  decide

/-- The bits of the real are kept, though they are above all signed numbers. -/
theorem foldsAs_shownReal :
    shownReal.body.InRange ∧ shownReal.body.arena.TypesLiterals ∧
      let arena := (showPackage.analyseDefinition true [] shownReal).1.body.arena
      (arena.get 0).kind = .conversion 2 (.box .real none) ∧ shownReal.body.arena.size ≤ 2 ∧
        Emit.literal? (arena.get 2).kind = some (.real 0xfff8000000000001) ∧
        ∀ env : Emit.FunctionEnv, env.arena = arena →
          Emit.FoldsAs env 2 .real (.real 0xfff8000000000001) (.global (Emit.metaGlobal "Real"))
            (BoxImage.padded [0xfff8000000000001]) := by
  have hin := isFresh_shownReal.inRange
  have htyped := isFresh_shownReal.typesLiterals
  refine ⟨hin, htyped, ?_⟩
  intro arena
  have hslot : (arena.get 0).kind = .conversion 2 (.box .real none) := rfl
  have hle : shownReal.body.arena.size ≤ 2 := by decide
  have hliteral : Emit.literal? (arena.get 2).kind = some (.real 0xfff8000000000001) := rfl
  have hfolds := Package.foldsAs_of_analyseDefinition showPackage true [] hin htyped 0 2 .real _ hslot hle hliteral
  exact ⟨hslot, hle, hliteral, hfolds.2.2⟩

end Boxlang
