import Boxlang.Proofs.Calls.Inherited
import Boxlang.Proofs.Elaboration.Call
import Boxlang.Proofs.Elaboration.Receiver
import Boxlang.Proofs.Subtyping.Nearest
import Boxlang.Proofs.Subtyping.Recursion

/-!
# What subclasses offer

Subtyping compares the types of a lineage, arguments included, while methods, protocols and
protected access go by the names of the declarations along it.  Where superclasses are class
types, these names do not depend on the arguments of a class (`IsAcyclic.lineageNames_object`),
and so those of a superclass are the last ones of each of its subclasses
(`IsAcyclic.lineageNames_suffix`).  Whatever is found along them is found from the subclass as well
(`Package.offers_of_isSubtype`).
-/

namespace Boxlang

namespace Declarations

variable {d : Declarations} {c : GenericContext} {s t : Ty} {m n : String} {args args' : List Ty}

/-! ### The names along a lineage -/

/-- The names of the declarations behind a type and its ancestors, nearest first. -/
def lineageNames (d : Declarations) (t : Ty) : List (Option String) :=
  (d.lineage t).map Ty.nominalName?

theorem lineageNames_of_none (h : d.superclass? t = none) : d.lineageNames t = [t.nominalName?] := by
  rw [lineageNames, lineage, IsAcyclic.ancestors_of_none h]
  rfl

namespace IsAcyclic

variable (hd : d.IsAcyclic)
include hd

theorem lineageNames_of_extends (h : d.Extends t s) :
    d.lineageNames t = t.nominalName? :: d.lineageNames s := by
  rw [lineageNames, lineage, hd.ancestors_of_extends h]
  rfl

theorem lineage_suffix (h : Relation.ReflTransGen d.Extends t s) : d.lineage s <:+ d.lineage t := by
  induction h using Relation.ReflTransGen.head_induction_on with
  | refl => exact List.suffix_rfl
  | @head t u h _ ih =>
      refine ih.trans ?_
      rw [lineage.eq_1 d t, hd.ancestors_of_extends h]
      exact List.suffix_cons t _

variable (hsuper : d.ExtendsClasses)
include hsuper

/-- The arguments of a class do not decide from which declarations it inherits. -/
theorem lineageNames_object (n : String) (args args' : List Ty) :
    d.lineageNames (.object n args) = d.lineageNames (.object n args') := by
  induction h : Ty.object n args using hd.induction generalizing n args args' with
  | h t ih =>
      subst h
      cases hu : (d.class? n).bind (·.superclass) with
      | none =>
          have hnone (vs : List Ty) : d.superclass? (.object n vs) = none := by
            rw [superclass?_object, hu, Option.map_none]
          rw [lineageNames_of_none (hnone args), lineageNames_of_none (hnone args')]
          rfl
      | some u =>
          obtain ⟨decl, hdecl, hu'⟩ := Option.bind_eq_some_iff.mp hu
          obtain ⟨m, us, rfl⟩ := hsuper.isObject hdecl hu'
          have hext (vs : List Ty) : d.Extends (.object n vs)
              (.object m (Ty.substAll (fun i => vs[i]?) (fun _ => none) us)) := by
            rw [Extends, superclass?_object, hu, Option.map_some, Ty.subst]
          rw [hd.lineageNames_of_extends (hext args), hd.lineageNames_of_extends (hext args'),
            ih _ (hext args) m _ _ rfl]
          rfl

/-- The names along a superclass are the last ones along the class. -/
theorem lineageNames_suffix (h : d.isSubtype c (.object m args) (.object n args') = true) :
    d.lineageNames (.object n args') <:+ d.lineageNames (.object m args) := by
  rw [isSubtype_iff, Ty.erased, Ty.erased, below_object_iff hd] at h
  rw [hd.lineageNames_object hsuper n args' (Ty.erasedAll args'),
    hd.lineageNames_object hsuper m args (Ty.erasedAll args)]
  exact (hd.lineage_suffix h).map Ty.nominalName?

end IsAcyclic

/-! ### What goes by name -/

theorem exists_object_of_mem_lineage (hsuper : d.ExtendsClasses) (h : s ∈ d.lineage (.object n args)) :
    ∃ m us, s = .object m us := by
  rcases List.mem_cons.mp h with rfl | hmem
  · exact ⟨n, args, rfl⟩
  · exact (hsuper.inheritsClasses _).exists_object hmem

theorem conformsTo_object_iff_exists_name (hsuper : d.ExtendsClasses) {protocol : String} :
    d.conformsTo (.object n args) protocol = true ↔
      ∃ m decl, some m ∈ d.lineageNames (.object n args) ∧ d.class? m = some decl ∧ protocol ∈ decl.protocols := by
  rw [conformsTo_object_iff]
  constructor
  · rintro ⟨s, hs, hprotocol⟩
    obtain ⟨m, us, rfl⟩ := exists_object_of_mem_lineage hsuper hs
    cases hdecl : d.class? m with
    | none => simp [classProtocols, hdecl] at hprotocol
    | some decl =>
        refine ⟨m, decl, List.mem_map.mpr ⟨_, hs, rfl⟩, hdecl, ?_⟩
        simpa [classProtocols, hdecl] using hprotocol
  · rintro ⟨m, decl, hm, hdecl, hprotocol⟩
    obtain ⟨s, hs, hname⟩ := List.mem_map.mp hm
    obtain ⟨m', us, rfl⟩ := exists_object_of_mem_lineage hsuper hs
    obtain rfl : m' = m := Option.some.inj hname
    exact ⟨_, hs, by simpa [classProtocols, hdecl] using hprotocol⟩

end Declarations

theorem Analysis.exists_runIn_checkUse_of_mayCall {env : Environment} {target : Signature}
    (h : env.mayCall target = true) (span : Span) (s : AnalysisState) :
    ∃ s', (checkUse target span).runIn env s = (.ok (), s') := by
  unfold checkUse
  rw [runIn_bind, runIn_read]
  simp only [h, if_true]
  by_cases hwarn : target.deprecated?.isSome = true
  · rw [if_pos hwarn, warnDeprecated, runIn_bind, runIn_read]
    dsimp only
    split
    · exact ⟨_, rfl⟩
    · exact ⟨_, rfl⟩
  · rw [if_neg hwarn]
    exact ⟨_, rfl⟩

namespace Package

open Declarations

variable {p : Package} {owner t : Ty} {name : String} {id : FunctionId}

/-! ### The latest declaration of a method -/

/-- The function is a method of the declaration behind `owner`, and has the name. -/
def Declares (p : Package) (owner : Ty) (name : String) (id : FunctionId) : Prop :=
  ∃ f o, p.functions[id]? = some f ∧ owner.nominalName? = some o ∧ f.ownerName? = some o ∧ f.name = name

/-- Of all methods of the name that `owner` declares, this is the latest. -/
structure DeclaresLatest (p : Package) (owner : Ty) (name : String) (id : FunctionId) : Prop where
  declares : p.Declares owner name id
  latest : ∀ k, p.Declares owner name k → k ≤ id

theorem mem_zipIdx_reverse {f : Signature} {k : Nat} :
    (f, k) ∈ p.functions.zipIdx.reverse ↔ p.functions[k]? = some f := by
  rw [List.mem_reverse, List.mem_zipIdx_iff_getElem?]

theorem pairwise_zipIdx_reverse (p : Package) :
    p.functions.zipIdx.reverse.Pairwise fun later earlier => earlier.2 < later.2 := by
  rw [List.pairwise_reverse, ← List.pairwise_map (f := Prod.snd) (R := (· < ·)), List.zipIdx_map_snd]
  exact List.pairwise_lt_range'

theorem le_of_findLast? {test : Signature → Bool} (h : p.findLast? test = some id) {k : Nat} {f : Signature}
    (hk : p.functions[k]? = some f) (hf : test f = true) : k ≤ id := by
  obtain ⟨⟨g, i⟩, hfound, rfl⟩ := Option.map_eq_some_iff.mp h
  obtain ⟨-, later, earlier, heq, hno⟩ := List.find?_eq_some_iff_append.mp hfound
  have hordered := p.pairwise_zipIdx_reverse
  have hmem := p.mem_zipIdx_reverse.mpr hk
  rw [heq] at hordered hmem
  rcases List.mem_append.mp hmem with hlater | hmem
  · have hfails := hno _ hlater
    simp [hf] at hfails
  · rcases List.mem_cons.mp hmem with hsame | hearlier
    · exact (congrArg Prod.snd hsame).le
    · exact ((List.pairwise_cons.mp (List.pairwise_append.mp hordered).2.1).1 _ hearlier).le

theorem findLast?_eq_some_iff {test : Signature → Bool} :
    p.findLast? test = some id ↔
      (∃ f, p.functions[id]? = some f ∧ test f = true) ∧
        ∀ k f, p.functions[k]? = some f → test f = true → k ≤ id := by
  constructor
  · intro h
    obtain ⟨⟨f, i⟩, hfound, rfl⟩ := Option.map_eq_some_iff.mp h
    exact ⟨⟨f, p.mem_zipIdx_reverse.mp (List.mem_of_find?_eq_some hfound),
      List.find?_some (p := fun q : Signature × Nat => test q.1) hfound⟩, fun k g => le_of_findLast? h⟩
  · rintro ⟨⟨f, hid, hf⟩, hlatest⟩
    cases hfound : p.functions.zipIdx.reverse.find? fun q => test q.1 with
    | none =>
        have hfails := List.find?_eq_none.mp hfound _ (p.mem_zipIdx_reverse.mpr hid)
        exact (hfails hf).elim
    | some q =>
        have hlast : p.findLast? test = some q.2 := by
          rw [findLast?]
          exact congrArg (Option.map Prod.snd) hfound
        have hq := p.mem_zipIdx_reverse.mp (List.mem_of_find?_eq_some hfound)
        rw [hlast, le_antisymm (hlatest _ _ hq (List.find?_some (p := fun q : Signature × Nat => test q.1) hfound))
          (le_of_findLast? hlast hid hf)]

theorem ownMethod?_eq_some_iff : p.ownMethod? name owner = some id ↔ p.DeclaresLatest owner name id := by
  have htest (o : String) (f : Signature) :
      (f.ownerName? = some o && f.name = name) = true ↔ f.ownerName? = some o ∧ f.name = name := by
    simp
  have hdeclares {o : String} (ho : owner.nominalName? = some o) (k : Nat) :
      p.Declares owner name k ↔ ∃ f, p.functions[k]? = some f ∧ f.ownerName? = some o ∧ f.name = name := by
    simp [Declares, ho]
  rw [ownMethod?, Option.bind_eq_some_iff]
  constructor
  · rintro ⟨o, ho, hlast⟩
    obtain ⟨⟨f, hid, hf⟩, hlatest⟩ := findLast?_eq_some_iff.mp hlast
    refine ⟨(hdeclares ho id).mpr ⟨f, hid, (htest o f).mp hf⟩, fun k hk => ?_⟩
    obtain ⟨g, hg, htg⟩ := (hdeclares ho k).mp hk
    exact hlatest k g hg ((htest o g).mpr htg)
  · rintro ⟨⟨f, o, hid, ho, hf⟩, hlatest⟩
    refine ⟨o, ho, findLast?_eq_some_iff.mpr ⟨⟨f, hid, (htest o f).mpr hf⟩, fun k g hg htg => ?_⟩⟩
    exact hlatest k ((hdeclares ho k).mpr ⟨g, hg, (htest o g).mp htg⟩)

theorem not_declares_of_ownMethod?_eq_none (h : p.ownMethod? name owner = none) (k : FunctionId) :
    ¬ p.Declares owner name k := by
  rintro ⟨f, o, hk, ho, hf⟩
  rw [ownMethod?, ho, Option.bind_some, findLast?, Option.map_eq_none_iff, List.find?_eq_none] at h
  exact h _ (p.mem_zipIdx_reverse.mpr hk) (by simp [hf])

/-- Of the lineage of `t`, `owner` is the nearest that declares the method, and this its latest declaration. -/
structure Offers (p : Package) (t : Ty) (name : String) (owner : Ty) (id : FunctionId) : Prop where
  latest : p.DeclaresLatest owner name id
  nearest : ∃ nearer farther, p.declarations.lineage t = nearer ++ owner :: farther ∧
    ∀ u ∈ nearer, ∀ k, ¬ p.Declares u name k

theorem FindsOn.offers (h : p.FindsOn t name owner id) : p.Offers t.unboxed name owner id where
  latest := ownMethod?_eq_some_iff.mp h.own
  nearest := by
    obtain ⟨nearer, farther, hsplit, hnone⟩ := h.nearest
    exact ⟨nearer, farther, hsplit, fun u hu => not_declares_of_ownMethod?_eq_none (hnone u hu)⟩

/-! ### Subclasses -/

theorem ownMethod?_congr {u : Ty} (h : t.nominalName? = u.nominalName?) :
    p.ownMethod? name t = p.ownMethod? name u := by
  rw [ownMethod?, ownMethod?, h]

theorem inheritsFrom_iff : p.inheritsFrom t owner = true ↔
    owner.nominalName? ∈ p.declarations.lineageNames t.unboxed := by
  rw [inheritsFrom, hasAncestor_eq_any, lineageNames, lineage, List.map_cons, List.mem_cons, List.mem_map]
  simp only [Bool.or_eq_true, decide_eq_true_eq, List.any_eq_true]
  exact or_congr_left eq_comm

section

variable {c : GenericContext} {m n : String} {args args' : List Ty} (hd : p.declarations.IsAcyclic)
  (hsuper : p.declarations.ExtendsClasses)
  (h : p.declarations.isSubtype c (.object m args) (.object n args') = true)
include hd hsuper h

theorem exists_method?_of_isSubtype (hfound : (p.method? (.object n args') name).isSome) :
    ∃ id, p.method? (.object m args) name = some id := by
  rw [method?_eq_findSome?, List.findSome?_isSome_iff] at hfound
  obtain ⟨u, hu, hown⟩ := hfound
  have hnames := (hd.lineageNames_suffix hsuper h).subset (List.mem_map_of_mem hu)
  obtain ⟨v, hv, hvu⟩ := List.mem_map.mp hnames
  rw [← Option.isSome_iff_exists, method?_eq_findSome?, List.findSome?_isSome_iff]
  exact ⟨v, hv, ownMethod?_congr hvu ▸ hown⟩

theorem conformsTo_of_isSubtype {protocol : String}
    (hsup : p.declarations.conformsTo (.object n args') protocol = true) :
    p.declarations.conformsTo (.object m args) protocol = true := by
  obtain ⟨k, decl, hk, hdecl, hprotocol⟩ := (conformsTo_object_iff_exists_name hsuper).mp hsup
  exact (conformsTo_object_iff_exists_name hsuper).mpr
    ⟨k, decl, (hd.lineageNames_suffix hsuper h).subset hk, hdecl, hprotocol⟩

/-- The arguments with which a subclass owns a function do not matter for what it may call. -/
theorem inheritsFrom_of_isSubtype {user : Ty} {us : List Ty} (huser : user.unboxed = .object m us)
    (howner : owner.nominalName? = some n) : p.inheritsFrom user owner = true := by
  rw [inheritsFrom_iff, huser, howner, hd.lineageNames_object hsuper m us args]
  exact (hd.lineageNames_suffix hsuper h).subset (List.mem_map_of_mem List.mem_cons_self)

/--
A subclass offers what its superclass offers.  It has a method of each name of which the
superclass has one, namely the latest declared by the nearest class of its lineage that declares
any; it conforms to the same protocols; and its functions may use the protected methods.
-/
theorem offers_of_isSubtype :
    (∀ name, (p.method? (.object n args') name).isSome →
      ∃ owner id, p.method? (.object m args) name = some id ∧ p.Offers (.object m args) name owner id) ∧
    (∀ protocol, p.declarations.conformsTo (.object n args') protocol = true →
      p.declarations.conformsTo (.object m args) protocol = true) ∧
    ∀ (env : Environment) (target : Signature) (owner user : Ty) (us : List Ty), env.package = p →
      target.access = .isProtected → target.owner? = some owner → owner.nominalName? = some n →
      env.function.owner? = some user → user.unboxed = .object m us →
      env.mayCall target = true ∧
        ∀ span s, ∃ s', (Analysis.checkUse target span).runIn env s = (.ok (), s') := by
  refine ⟨fun name hfound => ?_, fun protocol => conformsTo_of_isSubtype hd hsuper h, ?_⟩
  · obtain ⟨id, hid⟩ := exists_method?_of_isSubtype hd hsuper h hfound
    obtain ⟨owner, hfinds⟩ := method?_eq_some_iff.mp hid
    exact ⟨owner, id, hid, hfinds.offers⟩
  · rintro env target owner user us rfl haccess howner hname huser hclass
    have hmay : env.mayCall target = true := by
      simp [Environment.mayCall, haccess, howner, huser, inheritsFrom_of_isSubtype hd hsuper h hclass hname]
    exact ⟨hmay, fun span s => Analysis.exists_runIn_checkUse_of_mayCall hmay span s⟩

end

/-! ### A class below two generic ones -/

/-- Lines are rows of integers, and rows are sequences; rows declare the method of sequences again, twice. -/
def linePackage : Package where
  declarations := ((Declarations.prelude.addClass "Sequence" { generics := ["E"], protocols := ["Countable"] }).addClass
      "Row" { superclass := some (.object "Sequence" [.generic 0 "T"]), generics := ["T"] }).addClass
    "Line" { superclass := some (.object "Row" [.int]) }
  functions := [
    { name := "length", owner? := some (.object "Sequence" [.generic 0 "E"]), ret := .int },
    { name := "resize", owner? := some (.object "Sequence" [.generic 0 "E"]), access := .isProtected },
    { name := "length", owner? := some (.object "Row" [.generic 0 "T"]), ret := .int },
    { name := "length", owner? := some (.object "Row" [.generic 0 "T"]), ret := .optional .int },
    { name := "draw", owner? := some (.object "Line" []) }]

theorem isAcyclic_linePackage : linePackage.declarations.IsAcyclic :=
  isAcyclic_of_rank (fun name => if name = "Line" then 2 else if name = "Row" then 1 else 0)
    (by simp [linePackage, Declarations.addClass, Declarations.prelude])

theorem extendsClasses_linePackage : linePackage.declarations.ExtendsClasses :=
  extendsClasses_of_mem (by
    simp [linePackage, Declarations.addClass, Declarations.prelude, Ty.Every, Ty.EveryAll, Ty.IsUnmarked])

/-- Lines have the last length of rows, are countable, and may resize themselves as sequences do. -/
theorem offers_line :
    let line : Ty := .object "Line" []
    let sequence : Ty := .object "Sequence" [.boxed .int]
    let env : Environment := { package := linePackage, function := linePackage.signature 4 }
    linePackage.declarations.IsAcyclic ∧ linePackage.declarations.ExtendsClasses ∧
      linePackage.declarations.isSubtype {} line sequence = true ∧
      (linePackage.method? sequence "length").isSome ∧
      (∃ owner id, linePackage.method? line "length" = some id ∧ linePackage.Offers line "length" owner id) ∧
      linePackage.method? line "length" = some 3 ∧
      linePackage.declarations.conformsTo line "Countable" = true ∧
      env.mayCall (linePackage.signature 1) = true := by
  intro line sequence env
  have hsub : linePackage.declarations.isSubtype {} line sequence = true := by decide +kernel
  obtain ⟨hmethods, hprotocols, huse⟩ :=
    offers_of_isSubtype isAcyclic_linePackage extendsClasses_linePackage hsub
  have hfound : (linePackage.method? sequence "length").isSome := by decide +kernel
  exact ⟨isAcyclic_linePackage, extendsClasses_linePackage, hsub, hfound, hmethods "length" hfound,
    by decide +kernel, hprotocols "Countable" (by decide +kernel),
    (huse env (linePackage.signature 1) _ line [] rfl rfl rfl rfl rfl rfl).1⟩

end Package

end Boxlang
