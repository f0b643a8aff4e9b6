import Boxlang.Proofs.Emit.Unboxing
import Boxlang.Proofs.Types.Walk

/-!
# Metas identify types

The written form of a type has no marks for where its parts end: optionals stand before
what they hold, the result of a callable is written without parentheses, and arguments
are joined by commas.  Still the form can be read back from left to right (`Ty.read`),
where names are free of punctuation and each is used for one kind of declaration.  What
is read is the type without its storage marks, so two types are written alike only if
they differ in these, and two types have the same meta only if moreover they are callables.
-/

namespace Boxlang

inductive NominalKind where
  | object
  | value
  | enum
  | protocol
  deriving DecidableEq

/-- The characters besides arrows with which types are written around names. -/
def isPunctuation (c : Char) : Bool :=
  ['<', '>', '(', ')', ',', ' ', '?'].contains c

def IsWord (word : String) : Prop :=
  word ≠ "" ∧ word.toList.any isPunctuation = false

instance : DecidablePred IsWord := fun word =>
  inferInstanceAs (Decidable (word ≠ "" ∧ word.toList.any isPunctuation = false))

theorem IsWord.isPunctuation_eq {word : String} (h : IsWord word) :
    ∀ c ∈ word.toList, isPunctuation c = false := by
  simpa using h.2

theorem IsWord.exists_cons {word : String} (h : IsWord word) : ∃ c cs, word.toList = c :: cs :=
  List.exists_cons_of_ne_nil (mt String.toList_eq_nil_iff.mp h.1)

def builtinWords : List String :=
  ["Nothing", "Int", "Real", "Bool", "Byte", "Symbol", "Something", "Type"]

structure IsTypeName (name : String) : Prop where
  word : IsWord name
  notBuiltin : name ∉ builtinWords
  ne_callable : name ≠ Emit.callableTypeName

instance : DecidablePred IsTypeName := fun name =>
  decidable_of_iff (IsWord name ∧ name ∉ builtinWords ∧ name ≠ Emit.callableTypeName)
    ⟨fun h => ⟨h.1, h.2.1, h.2.2⟩, fun h => ⟨h.word, h.notBuiltin, h.ne_callable⟩⟩

namespace Ty

/--
The type is no error and no generic variable, a mark is not repeated, and the name of a
declaration is a type name that is used for that kind of declaration.
-/
def IsDeclaredBy (kind : String → NominalKind) : Ty → Prop
  | .error | .generic _ _ | .localGeneric _ _ | .boxed (.boxed _) => False
  | .object name _ => IsTypeName name ∧ kind name = .object
  | .value name _ => IsTypeName name ∧ kind name = .value
  | .enum name => IsTypeName name ∧ kind name = .enum
  | .protocol name => IsTypeName name ∧ kind name = .protocol
  | _ => True

/-! ### Reading -/

section Reading

variable (kind : String → NominalKind)

def ofWord (word : String) (args : List Ty) : Ty :=
  match word, args with
  | "Nothing", _ => .nothing
  | "Int", _ => .int
  | "Real", _ => .real
  | "Bool", _ => .bool
  | "Byte", _ => .byte
  | "Symbol", _ => .symbol
  | "Something", _ => .something
  | "Type", [inner] => .typeValue inner
  | _, _ =>
    match kind word with
    | .object => .object word args
    | .value => .value word args
    | .enum => .enum word
    | .protocol => .protocol word

def readArgs (readAll : List Char → Option (List Ty × List Char)) :
    List Char → Option (List Ty × List Char)
  | '<' :: cs => readAll cs
  | cs => some ([], cs)

mutual

def read : Nat → List Char → Option (Ty × List Char)
  | 0, _ => none
  | n + 1, '?' :: cs => do
    let (inner, cs) ← read n cs
    return (.optional inner, cs)
  | n + 1, '(' :: cs => do
    let (params, cs) ← readAll n ')' cs
    let (ret, cs) ← read n (cs.drop " -> ".length)
    return (.callable params ret, cs)
  | n + 1, cs => do
    let word := String.ofList (cs.takeWhile fun c => !isPunctuation c)
    let (args, cs) ← readArgs (readAll n '>') (cs.dropWhile fun c => !isPunctuation c)
    return (ofWord kind word args, cs)

def readAll : Nat → Char → List Char → Option (List Ty × List Char)
  | 0, _, _ => none
  | _ + 1, _, [] => none
  | n + 1, close, c :: cs =>
    if c = close then some ([], cs)
    else if c = ',' then readAll n close (cs.drop " ".length)
    else do
      let (t, cs) ← read n (c :: cs)
      let (ts, cs) ← readAll n close cs
      return (t :: ts, cs)

end

variable {kind}

def Closes (cs : List Char) : Prop :=
  ∀ c ∈ cs.head?, c ∈ [',', '>', ')']

/-- The characters are read as the type whatever follows them, with calls enough. -/
structure ReadsAs (kind : String → NominalKind) (cs : List Char) (t : Ty) : Prop where
  starts : ∃ c ∈ cs.head?, c ∉ [',', '>', ')']
  exists_read : ∃ n, ∀ m ≥ n, ∀ rest, Closes rest → read kind m (cs ++ rest) = some (t, rest)

def ReadsAllAs (kind : String → NominalKind) (cs : List Char) (ts : List Ty) : Prop :=
  ∃ n, ∀ m ≥ n, ∀ close ∈ ['>', ')'], ∀ rest,
    readAll kind m close (cs ++ close :: rest) = some (ts, rest)

theorem ReadsAs.unique {cs : List Char} {t u : Ty} (ht : ReadsAs kind cs t) (hu : ReadsAs kind cs u) :
    t = u := by
  obtain ⟨n, hn⟩ := ht.exists_read
  obtain ⟨m, hm⟩ := hu.exists_read
  have hread := (hn (max n m) (Nat.le_max_left n m) [] nofun).symm.trans
    (hm (max n m) (Nat.le_max_right n m) [] nofun)
  exact congrArg Prod.fst (Option.some.inj hread)

/-! ### Words -/

theorem span_word {word rest : List Char} (hword : ∀ c ∈ word, isPunctuation c = false)
    (hrest : ∀ c ∈ rest.head?, isPunctuation c = true) :
    (word ++ rest).takeWhile (fun c => !isPunctuation c) = word ∧
      (word ++ rest).dropWhile (fun c => !isPunctuation c) = rest := by
  have hpos : ∀ c ∈ word, (!isPunctuation c) = true := fun c hc => by simp [hword c hc]
  rw [List.takeWhile_append_of_pos hpos, List.dropWhile_append_of_pos hpos]
  cases rest with
  | nil => simp
  | cons c rest => simp [hrest c rfl]

theorem Closes.isPunctuation {cs : List Char} (h : Closes cs) :
    ∀ c ∈ cs.head?, isPunctuation c = true := by
  intro c hc
  have hmem := h c hc
  simp only [List.mem_cons, List.not_mem_nil, or_false] at hmem
  rcases hmem with rfl | rfl | rfl <;> rfl

theorem read_word {word : String} (hword : IsWord word) {rest : List Char}
    (hrest : ∀ c ∈ rest.head?, isPunctuation c = true) (n : Nat) :
    read kind (n + 1) (word.toList ++ rest) =
      (readArgs (readAll kind n '>') rest).map fun (args, cs) => (ofWord kind word args, cs) := by
  obtain ⟨htake, hdrop⟩ := span_word hword.isPunctuation_eq hrest
  obtain ⟨c, cs, hcons⟩ := hword.exists_cons
  have hc : isPunctuation c = false := hword.isPunctuation_eq c (by simp [hcons])
  rw [hcons, List.cons_append] at htake hdrop ⊢
  rw [read, htake, hdrop, ← hcons, String.ofList_toList]
  · cases readArgs (readAll kind n '>') rest <;> rfl
  · rintro _ ⟨⟩
    cases hc
  · rintro _ ⟨⟩
    cases hc

theorem readArgs_of_closes {rest : List Char} (h : Closes rest)
    (readAll : List Char → Option (List Ty × List Char)) : readArgs readAll rest = some ([], rest) := by
  unfold readArgs
  split
  next => exact absurd (h '<' rfl) (by decide)
  next => rfl

theorem exists_head_word {word : String} (hword : IsWord word) (rest : List Char) :
    ∃ c ∈ (word.toList ++ rest).head?, c ∉ [',', '>', ')'] := by
  obtain ⟨c, cs, hcons⟩ := hword.exists_cons
  refine ⟨c, by rw [hcons]; rfl, fun hmem => ?_⟩
  have hcloses : Closes [c] := by
    rintro _ ⟨⟩
    exact hmem
  have hpunctuation := hcloses.isPunctuation c rfl
  rw [hword.isPunctuation_eq c (by simp [hcons])] at hpunctuation
  cases hpunctuation

theorem readsAs_word {word : String} (hword : IsWord word) :
    ReadsAs kind word.toList (ofWord kind word []) where
  starts := by simpa using exists_head_word hword []
  exists_read := by
    refine ⟨1, fun m hm rest hrest => ?_⟩
    obtain ⟨m, rfl⟩ := Nat.exists_eq_add_of_le' hm
    rw [read_word hword hrest.isPunctuation, readArgs_of_closes hrest]
    rfl

theorem readsAs_args {word : String} (hword : IsWord word) {cs : List Char} {args : List Ty}
    (hargs : ReadsAllAs kind cs args) :
    ReadsAs kind (word.toList ++ '<' :: (cs ++ ['>'])) (ofWord kind word args) where
  starts := exists_head_word hword _
  exists_read := by
    obtain ⟨n, hn⟩ := hargs
    refine ⟨n + 1, fun m hm rest hrest => ?_⟩
    obtain ⟨m, rfl⟩ := Nat.exists_eq_add_of_le' (Nat.le_of_add_left_le hm)
    rw [List.append_assoc, read_word hword (by rintro _ ⟨⟩; rfl), List.cons_append,
      List.append_assoc]
    rw [readArgs, List.singleton_append, hn m (by omega) '>' (by decide)]
    rfl

/-! ### Optionals, callables and lists -/

theorem ReadsAs.optional {cs : List Char} {t : Ty} (h : ReadsAs kind cs t) :
    ReadsAs kind ('?' :: cs) (.optional t) where
  starts := ⟨'?', rfl, by decide⟩
  exists_read := by
    obtain ⟨n, hn⟩ := h.exists_read
    refine ⟨n + 1, fun m hm rest hrest => ?_⟩
    obtain ⟨m, rfl⟩ := Nat.exists_eq_add_of_le' (Nat.le_of_add_left_le hm)
    rw [List.cons_append, read, hn m (by omega) rest hrest]
    rfl

/-- The result extends as far as a type does there: nothing else follows an arrow. -/
theorem ReadsAs.callable {ps cs : List Char} {params : List Ty} {ret : Ty}
    (hparams : ReadsAllAs kind ps params) (hret : ReadsAs kind cs ret) :
    ReadsAs kind ('(' :: (ps ++ ')' :: (" -> ".toList ++ cs))) (.callable params ret) where
  starts := ⟨'(', rfl, by decide⟩
  exists_read := by
    obtain ⟨n, hn⟩ := hparams
    obtain ⟨k, hk⟩ := hret.exists_read
    refine ⟨max n k + 1, fun m hm rest hrest => ?_⟩
    obtain ⟨m, rfl⟩ := Nat.exists_eq_add_of_le' (Nat.le_of_add_left_le hm)
    have hdrop : (" -> ".toList ++ cs ++ rest).drop " -> ".length = cs ++ rest := rfl
    rw [List.cons_append, List.append_assoc, List.cons_append, read, hn m (by omega) ')' (by decide)]
    simp only [Option.bind_eq_bind, Option.bind_some]
    rw [hdrop, hk m (by omega) rest hrest]
    rfl

theorem readsAllAs_nil : ReadsAllAs kind [] [] := by
  refine ⟨1, fun m hm close _ rest => ?_⟩
  obtain ⟨m, rfl⟩ := Nat.exists_eq_add_of_le' hm
  rw [List.nil_append, readAll, if_pos rfl]

theorem ReadsAllAs.comma {cs : List Char} {ts : List Ty} (h : ReadsAllAs kind cs ts) :
    ReadsAllAs kind (", ".toList ++ cs) ts := by
  obtain ⟨n, hn⟩ := h
  refine ⟨n + 1, fun m hm close hclose rest => ?_⟩
  obtain ⟨m, rfl⟩ := Nat.exists_eq_add_of_le' (Nat.le_of_add_left_le hm)
  have hne : ',' ≠ close := by
    rintro rfl
    exact absurd hclose (by decide)
  have hcons : ", ".toList ++ cs ++ close :: rest = ',' :: (" ".toList ++ (cs ++ close :: rest)) := rfl
  have hdrop : (" ".toList ++ (cs ++ close :: rest)).drop " ".length = cs ++ close :: rest := rfl
  rw [hcons, readAll, if_neg hne, if_pos rfl, hdrop]
  exact hn m (by omega) close hclose rest

/-- A list is read type by type, each up to the comma behind it or the end. -/
theorem ReadsAllAs.cons {cs tail : List Char} {t : Ty} {ts : List Ty} (h : ReadsAs kind cs t)
    (htail : ∀ c ∈ tail.head?, c = ',') (hts : ReadsAllAs kind tail ts) :
    ReadsAllAs kind (cs ++ tail) (t :: ts) := by
  obtain ⟨c, hc, hmem⟩ := h.starts
  obtain ⟨n, hn⟩ := h.exists_read
  obtain ⟨k, hk⟩ := hts
  refine ⟨max n k + 1, fun m hm close hclose rest => ?_⟩
  obtain ⟨m, rfl⟩ := Nat.exists_eq_add_of_le' (Nat.le_of_add_left_le hm)
  have hcloses : Closes (tail ++ close :: rest) := by
    cases tail with
    | nil =>
      rintro _ ⟨⟩
      exact List.mem_cons_of_mem ',' hclose
    | cons c' tail =>
      rintro _ ⟨⟩
      rw [htail c' rfl]
      decide
  have hread := hn m (by omega) _ hcloses
  obtain ⟨cs, rfl⟩ := List.head?_eq_some_iff.mp hc
  have hne : c ≠ close := by
    rintro rfl
    exact hmem (List.mem_cons_of_mem ',' hclose)
  rw [List.append_assoc, List.cons_append] at *
  rw [readAll, if_neg hne, if_neg (by rintro rfl; exact hmem (by decide)), hread]
  simp only [Option.bind_eq_bind, Option.bind_some]
  rw [hk m (by omega) close hclose rest]
  rfl

theorem ReadsAs.single {cs : List Char} {t : Ty} (h : ReadsAs kind cs t) : ReadsAllAs kind cs [t] := by
  simpa using ReadsAllAs.cons h (by simp) readsAllAs_nil

/-! ### Written types -/

theorem readsAs_builtin {word : String} (hword : IsWord word) {t : Ty} (h : ofWord kind word [] = t) :
    ReadsAs kind word.toList t :=
  h ▸ readsAs_word hword

theorem ofWord_of_notMem {word : String} (h : word ∉ builtinWords) (args : List Ty) :
    ofWord kind word args =
      match kind word with
      | .object => .object word args
      | .value => .value word args
      | .enum => .enum word
      | .protocol => .protocol word := by
  unfold ofWord
  split
  case h_9 => rfl
  all_goals exact absurd (by decide) h

mutual

theorem text_erased : ∀ t : Ty, t.erased.text = t.text
  | .error | .nothing | .int | .real | .bool | .byte | .symbol | .something => by simp only [erased]
  | .enum _ | .protocol _ | .generic _ _ | .localGeneric _ _ => by simp only [erased]
  | .object _ [] | .value _ [] => by simp only [erased, erasedAll]
  | .object _ (t :: ts) | .value _ (t :: ts) => by
    have hargs := textAll_erasedAll (t :: ts)
    simp only [erasedAll] at hargs
    simp only [erased, erasedAll, text, hargs]
  | .callable params ret => by simp only [erased, text, textAll_erasedAll params, text_erased ret]
  | .optional inner | .typeValue inner | .boxed inner => by simp only [erased, text, text_erased inner]

theorem textAll_erasedAll : ∀ ts : List Ty, textAll (erasedAll ts) = textAll ts
  | [] => rfl
  | t :: ts => by simp only [erasedAll, textAll, text_erased t, textAll_erasedAll ts]

end

mutual

theorem readsAs_text : ∀ t : Ty, t.Every (IsDeclaredBy kind) → ReadsAs kind t.text.toList t.erased
  | .nothing, _ | .int, _ | .real, _ | .bool, _ | .byte, _ | .symbol, _ | .something, _ =>
    readsAs_builtin (by decide) rfl
  | .enum name, h | .protocol name, h => by
    have hread : ReadsAs kind _ _ := readsAs_word h.1.word
    rwa [ofWord_of_notMem h.1.notBuiltin, h.2] at hread
  | .object name [], h | .value name [], h => by
    have hread : ReadsAs kind _ _ := readsAs_word h.1.1.word
    rwa [ofWord_of_notMem h.1.1.notBuiltin, h.1.2] at hread
  | .object name (t :: ts), h | .value name (t :: ts), h => by
    have hread := readsAs_args h.1.1.word (readsAllAs_textAll (t :: ts) h.2)
    rw [ofWord_of_notMem h.1.1.notBuiltin, h.1.2] at hread
    simpa [text, erased] using hread
  | .callable params ret, h => by
    have hread := ReadsAs.callable (readsAllAs_textAll params h.2.1) (readsAs_text ret h.2.2)
    simpa [text, erased] using hread
  | .optional inner, h => by
    simpa [text, erased] using (readsAs_text inner h.2).optional
  | .typeValue inner, h => by
    have htype : IsWord "Type" := by decide
    have hread := readsAs_args htype (readsAs_text inner h.2).single
    simpa [text, erased, ofWord] using hread
  | .boxed inner, h => by
    rw [text, erased]
    exact readsAs_text inner h.2

theorem readsAllAs_textAll : ∀ ts : List Ty, EveryAll (IsDeclaredBy kind) ts →
    ReadsAllAs kind (", ".intercalate (textAll ts)).toList (erasedAll ts)
  | [], _ => by simpa [textAll, erasedAll] using readsAllAs_nil
  | [t], h => by simpa [textAll, erasedAll] using (readsAs_text t h.1).single
  | t :: u :: ts, h => by
    have htail := (readsAllAs_textAll (u :: ts) h.2).comma
    have hread := ReadsAllAs.cons (readsAs_text t h.1) (by rintro _ ⟨⟩; rfl) htail
    rw [textAll, textAll, String.intercalate_cons_cons, String.toList_append, String.toList_append,
      List.append_assoc]
    rwa [textAll, erasedAll] at hread

end

/-- Types are written alike exactly if they differ in storage marks only. -/
theorem text_eq_text_iff {a b : Ty} (ha : a.Every (IsDeclaredBy kind)) (hb : b.Every (IsDeclaredBy kind)) :
    a.text = b.text ↔ a.erased = b.erased := by
  refine ⟨fun h => (readsAs_text a ha).unique ?_, fun h => ?_⟩
  · rw [h]
    exact readsAs_text b hb
  · rw [← text_erased a, ← text_erased b, h]

/-! ### Metas -/

theorem isDeclaredBy_erased : ∀ t : Ty, t.Every (IsDeclaredBy kind) → IsDeclaredBy kind t.erased
  | .boxed inner, h => isDeclaredBy_erased inner h.2
  | .nothing, _ | .int, _ | .real, _ | .bool, _ | .byte, _ | .symbol, _ | .something, _ => trivial
  | .callable _ _, _ | .optional _, _ | .typeValue _, _ => trivial
  | .enum _, h | .protocol _, h => h
  | .object _ _, h | .value _ _, h => h.1

theorem text_ne_callableTypeName {t : Ty} (h : t.Every (IsDeclaredBy kind)) :
    t.text ≠ Emit.callableTypeName := by
  intro heq
  have hread := readsAs_text t h
  rw [heq] at hread
  have herased := hread.unique (readsAs_word (by decide))
  have hdeclared := isDeclaredBy_erased t h
  rw [herased, ofWord_of_notMem (by decide)] at hdeclared
  cases hk : kind Emit.callableTypeName <;> rw [hk] at hdeclared <;>
    exact hdeclared.1.ne_callable rfl

/-- Where marks are not repeated, a type is a callable whatever its marks. -/
theorem isCallable_erased {t : Ty} (h : t.Every (IsDeclaredBy kind)) :
    t.erased.isCallable = t.isCallable := by
  cases t with
  | boxed inner => cases inner <;> first | rfl | exact h.1.elim
  | _ => rfl

theorem metaName_eq_metaName_iff {a b : Ty} (ha : a.Every (IsDeclaredBy kind))
    (hb : b.Every (IsDeclaredBy kind)) :
    a.metaName = b.metaName ↔ (a.isCallable = true ∧ b.isCallable = true) ∨ a.erased = b.erased := by
  have hcallable : a.erased = b.erased → a.isCallable = b.isCallable := fun h => by
    rw [← isCallable_erased ha, ← isCallable_erased hb, h]
  unfold metaName
  rw [text_erased, text_erased]
  split
  next hac =>
    split
    next hbc => simp [hac, hbc]
    next hbc => grind [text_ne_callableTypeName hb]
  next hac =>
    split
    next hbc => grind [text_ne_callableTypeName ha]
    next hbc => simp [hac, text_eq_text_iff ha hb]

end Reading

end Ty

namespace Emit

/--
Types are written alike exactly if they are the same up to storage marks.  Their metas
have the same symbol in that case and, whatever was generated before, in no other except
between callables.
-/
theorem metaSymbol_identifies {kind : String → NominalKind} {a b : Ty}
    (ha : a.Every (Ty.IsDeclaredBy kind)) (hb : b.Every (Ty.IsDeclaredBy kind)) :
    (a.text = b.text ↔ a.erased = b.erased) ∧
      ∀ s s' : ModuleState,
        ((metaSymbol a).run s).1.text = ((metaSymbol b).run s').1.text ↔
          (a.isCallable = true ∧ b.isCallable = true) ∨ a.erased = b.erased := by
  refine ⟨Ty.text_eq_text_iff ha hb, fun s s' => ?_⟩
  rw [metaSymbol_run_fst, metaSymbol_run_fst, Llvm.Global.text_injective.eq_iff, metaGlobal_inj]
  exact Ty.metaName_eq_metaName_iff ha hb

def listKind : String → NominalKind
  | "List" => .object
  | _ => .protocol

theorem isTypeName_list : IsTypeName "List" ∧ IsTypeName "Shape" := by
  decide

/-- Optional functions are told from functions of optionals, and marks make no difference. -/
theorem metaSymbol_identifies_lists :
    let shapes : Ty := .object "List" [.boxed (.protocol "Shape")]
    let a : Ty := .optional (.callable [shapes, .typeValue shapes] (.optional .int))
    let b : Ty := .boxed (.optional (.callable [.object "List" [.protocol "Shape"], .typeValue shapes]
      (.optional (.boxed .int))))
    let c : Ty := .optional (.callable [.optional shapes, .typeValue shapes] .int)
    a.Every (Ty.IsDeclaredBy listKind) ∧ b.Every (Ty.IsDeclaredBy listKind) ∧
      c.Every (Ty.IsDeclaredBy listKind) ∧ ∀ s s' : ModuleState,
        ((metaSymbol a).run s).1.text = ((metaSymbol b).run s').1.text ∧
          ((metaSymbol a).run s).1.text ≠ ((metaSymbol c).run s').1.text := by
  intro shapes a b c
  have ha : a.Every (Ty.IsDeclaredBy listKind) := by
    simp [a, shapes, Ty.Every, Ty.EveryAll, Ty.IsDeclaredBy, isTypeName_list, listKind]
  have hb : b.Every (Ty.IsDeclaredBy listKind) := by
    simp [b, shapes, Ty.Every, Ty.EveryAll, Ty.IsDeclaredBy, isTypeName_list, listKind]
  have hc : c.Every (Ty.IsDeclaredBy listKind) := by
    simp [c, shapes, Ty.Every, Ty.EveryAll, Ty.IsDeclaredBy, isTypeName_list, listKind]
  refine ⟨ha, hb, hc, fun s s' => ⟨((metaSymbol_identifies ha hb).2 s s').mpr (.inr ?_), fun h => ?_⟩⟩
  · simp [a, b, shapes, Ty.erased, Ty.erasedAll]
  · rcases ((metaSymbol_identifies ha hc).2 s s').mp h with h | h
    · exact absurd h.1 (by decide)
    · simp [a, c, shapes, Ty.erased, Ty.erasedAll] at h

end Emit

end Boxlang
