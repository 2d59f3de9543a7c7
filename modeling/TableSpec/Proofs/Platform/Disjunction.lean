import Mathlib.Data.List.Forall2
import TableSpec.Proofs.Lists
import TableSpec.Proofs.Platform
import TableSpec.Proofs.Result

/-!
# `Proofs.Platform.Disjunction` — the platforms that a disjunction names

The operands of a disjunction are read from left to right, each of them adding the platforms of its category that
are not there yet, and the first one that calls no category ends it. So the platforms are those of all categories
that are called, in order of first mention. Which they are depends neither on the order of the operands nor on how
often one of them comes, and the same goes for whether there are any. Only the error tells which operand came first,
and where it stands.

## Contents
- `Calls`: operands and the platforms of the categories that they call. `OperandFault`: all other operands, and
  what is wrong with them.
- `addNew_append`, `addNew_nil_eq_eraseDups`: platforms that are added one after the other.
- `ofOperands_of_calls`, `ofOperands_of_fault`: operands that are fine, and operands of which one is not.
- `Unites`, `FirstFault`, `ofDisjunction_decided`: what a disjunction names, or what is wrong with it.
- `mem_of_unites`, `ofDisjunction_congr`, `ofDisjunction_insert`: other operands.
- `listed_of_ofArgument`, `ofArgument_ne_nil`: arguments that may be a disjunction.
- `ofDisjunction_unites`: all of it.
-/

namespace TableSpec
namespace Platform

/-! ## Operands -/

/-- An operand that calls a category by its bare name and without arguments, and the platforms of the category. -/
inductive Calls : Node → List String → Prop where
  | call {category : String} {platforms : List String} (h : (category, platforms) ∈ categories) :
      Calls (.call (.name category) [] []) platforms

/-- What is wrong with an operand that calls no category. If it has not the form of such a call, the error tells in
    which place the operand stands, counted from 0. -/
inductive OperandFault : Node → (Nat → Error) → Prop where
  | notCall {node : Node} : (∀ callee args keywords, node ≠ .call callee args keywords) →
      OperandFault node (fun place => .unexpected s!"lambda OR operand {place}" "call" node.describe)
  | notName {callee : Node} {args : List Node} {keywords : List (String × Node)} : (∀ id, callee ≠ .name id) →
      OperandFault (.call callee args keywords)
        (fun place => .unexpected s!"lambda OR operand {place}" "call to a bare name" callee.describe)
  | argument {id : String} {first : Node} {more : List Node} {keywords : List (String × Node)} :
      OperandFault (.call (.name id) (first :: more) keywords)
        (fun place => .unexpected s!"lambda OR operand {place}" "zero-argument call" first.describe)
  | keyword {id word : String} {value : Node} {more : List (String × Node)} :
      OperandFault (.call (.name id) [] ((word, value) :: more))
        (fun place => .unexpected s!"lambda OR operand {place}" "zero-argument call" value.describe)
  | unlisted {category : String} : category ∉ categories.map Prod.fst →
      OperandFault (.call (.name category) [] []) (fun _ => .lookup category "table categories")

variable {known platforms : List String} {operands before : List Node} {operand : Node} {place : Nat}
  {fault : Nat → Error}

/-- An operand calls a category, or something is wrong with it. -/
theorem calls_or_operandFault (operand : Node) :
    (∃ row, Calls operand row) ∨ ∃ fault, OperandFault operand fault := by
  by_cases hcall : ∃ callee args keywords, operand = .call callee args keywords
  · obtain ⟨callee, args, keywords, rfl⟩ := hcall
    by_cases hname : ∃ id, callee = .name id
    · obtain ⟨id, rfl⟩ := hname
      cases args with
      | cons first more => exact Or.inr ⟨_, .argument⟩
      | nil =>
        cases keywords with
        | cons first more => exact Or.inr ⟨_, .keyword⟩
        | nil =>
          by_cases hlisted : id ∈ categories.map Prod.fst
          · obtain ⟨row, hrow, rfl⟩ := List.mem_map.mp hlisted
            exact Or.inl ⟨row.2, .call hrow⟩
          · exact Or.inr ⟨_, .unlisted hlisted⟩
    · exact Or.inr ⟨_, .notName (fun id hid => hname ⟨id, hid⟩)⟩
  · exact Or.inr ⟨_, .notCall (fun callee args keywords heq => hcall ⟨callee, args, keywords, heq⟩)⟩

/-! ## Platforms one after the other -/

theorem addNew_append (known front back : List String) :
    addNew known (front ++ back) = addNew (addNew known front) back := List.foldl_append

/-- Added to nothing, platforms stand in order of first mention. -/
theorem addNew_nil_eq_eraseDups (names : List String) : addNew [] names = names.eraseDups := by
  induction names using List.reverseRecOn with
  | nil =>
    rw [List.eraseDups_nil]
    rfl
  | append_singleton front name ih =>
    have hlast : addNew front.eraseDups [name] =
        if front.eraseDups.contains name then front.eraseDups else front.eraseDups ++ [name] := rfl
    rw [addNew_append, ih, hlast]
    by_cases hname : name ∈ front
    · rw [eraseDups_concat_of_mem hname, if_pos (by simpa using hname)]
    · rw [eraseDups_concat_of_not_mem hname, if_neg (by simpa using hname)]

/-! ## All operands -/

/-- An operand that calls a category adds its platforms. -/
theorem ofOperands_cons_of_calls {row : List String} (h : Calls operand row) (known : List String) (place : Nat)
    (operands : List Node) :
    ofOperands known place (operand :: operands) = ofOperands (addNew known row) (place + 1) operands := by
  cases h with
  | call hrow =>
    rw [ofOperands]
    show (ofCategory _).bind _ = _
    rw [ofCategory_eq_ok.mpr hrow]
    rfl

/-- Any other operand ends it. -/
theorem ofOperands_cons_of_operandFault (h : OperandFault operand fault) (known : List String) (place : Nat)
    (operands : List Node) : ofOperands known place (operand :: operands) = .error (fault place) := by
  rw [ofOperands]
  cases h with
  | notCall hnot =>
    cases operand with
    | call callee args keywords => exact absurd rfl (hnot callee args keywords)
    | _ => rfl
  | @notName callee _ _ hnot =>
    cases callee with
    | name id => exact absurd rfl (hnot id)
    | _ => rfl
  | argument => rfl
  | keyword => rfl
  | unlisted hlisted =>
    show (ofCategory _).bind _ = _
    rw [ofCategory_of_unlisted hlisted]
    rfl

/-- Where every operand calls a category, the platforms of the categories are added one after the other. -/
theorem ofOperands_of_calls {rows : List (List String)} (h : List.Forall₂ Calls operands rows)
    (known : List String) (place : Nat) :
    ofOperands known place operands = .ok (addNew known rows.flatten) := by
  induction h generalizing known place with
  | nil => rfl
  | cons hcalls _ ih => rw [ofOperands_cons_of_calls hcalls, ih, List.flatten_cons, addNew_append]

/-- The first operand that calls no category is the error, told with its place. -/
theorem ofOperands_of_fault (hbefore : ∀ o ∈ before, ∃ row, Calls o row) (h : OperandFault operand fault)
    (known : List String) (place : Nat) (after : List Node) :
    ofOperands known place (before ++ operand :: after) = .error (fault (place + before.length)) := by
  induction before generalizing known place with
  | nil => exact ofOperands_cons_of_operandFault h known place after
  | cons first rest ih =>
    obtain ⟨row, hrow⟩ := hbefore first List.mem_cons_self
    rw [List.cons_append, ofOperands_cons_of_calls hrow, ih (fun o ho => hbefore o (List.mem_cons_of_mem first ho)),
      List.length_cons, Nat.add_assoc, Nat.add_comm 1]

/-! ## Disjunctions -/

/-- The platforms of a disjunction, told by the categories that its operands call: no platform comes twice, and
    they stand in the order in which the categories mention them first. -/
structure Unites (operands : List Node) (platforms : List String) : Prop where
  nodup : platforms.Nodup
  ordered : ∃ rows, List.Forall₂ Calls operands rows ∧ platforms = rows.flatten.eraseDups

/-- The error of a disjunction: that of the first operand that calls no category, in its place. -/
def FirstFault (operands : List Node) (e : Error) : Prop :=
  ∃ before operand after fault, operands = before ++ operand :: after ∧ (∀ o ∈ before, ∃ row, Calls o row) ∧
    OperandFault operand fault ∧ e = fault before.length

theorem exists_rows (h : ∀ operand ∈ operands, ∃ row, Calls operand row) :
    ∃ rows, List.Forall₂ Calls operands rows := by
  induction operands with
  | nil => exact ⟨[], .nil⟩
  | cons first rest ih =>
    obtain ⟨row, hrow⟩ := h first List.mem_cons_self
    obtain ⟨rows, hrows⟩ := ih (fun o ho => h o (List.mem_cons_of_mem first ho))
    exact ⟨row :: rows, .cons hrow hrows⟩

theorem unites_of_calls (h : ∀ operand ∈ operands, ∃ row, Calls operand row) :
    ∃ platforms, ofDisjunction (.chain .or operands) = .ok platforms ∧ Unites operands platforms := by
  obtain ⟨rows, hrows⟩ := exists_rows h
  have hunion := addNew_nil_eq_eraseDups rows.flatten
  exact ⟨_, ofOperands_of_calls hrows [] 0, hunion ▸ nodup_eraseDups rows.flatten, rows, hrows, hunion⟩

/-- Every operand calls a category, or there is a first one that does not. -/
theorem calls_or_firstFault (operands : List Node) :
    (∀ operand ∈ operands, ∃ row, Calls operand row) ∨ ∃ e, FirstFault operands e := by
  rcases forall_or_first (fun o => ∃ row, Calls o row) operands with h | ⟨before, operand, after, rfl, hbefore, hnot⟩
  · exact Or.inl h
  · obtain ⟨fault, hfault⟩ := (calls_or_operandFault operand).resolve_left hnot
    exact Or.inr ⟨_, before, operand, after, fault, rfl, hbefore, hfault, rfl⟩

/-- When a disjunction names platforms, which, and what is wrong otherwise. -/
theorem ofDisjunction_decided (operands : List Node) :
    ((∃ platforms, ofDisjunction (.chain .or operands) = .ok platforms) ↔
      ∀ operand ∈ operands, ∃ row, Calls operand row) ∧
    (∀ platforms, ofDisjunction (.chain .or operands) = .ok platforms → Unites operands platforms) ∧
    (∀ e, ofDisjunction (.chain .or operands) = .error e ↔ FirstFault operands e) := by
  apply decided
  · exact unites_of_calls
  · rintro e ⟨before, operand, after, fault, rfl, hbefore, hfault, rfl⟩
    have herror := ofOperands_of_fault hbefore hfault [] 0 after
    rwa [Nat.zero_add] at herror
  · exact calls_or_firstFault operands

/-! ### Other operands -/

theorem Calls.unique {row row' : List String} (h : Calls operand row) (h' : Calls operand row') : row = row' := by
  cases h with
  | call hrow =>
    cases h' with
    | call hrow' =>
      have heq := ofCategory_eq_ok.mpr hrow
      rw [ofCategory_eq_ok.mpr hrow'] at heq
      exact (Except.ok.inj heq).symm

/-- A platform is named when one of the operands calls a category that has it. -/
theorem mem_of_unites (h : Unites operands platforms) {platform : String} :
    platform ∈ platforms ↔ ∃ operand ∈ operands, ∃ row, Calls operand row ∧ platform ∈ row := by
  obtain ⟨rows, hrows, rfl⟩ := h.ordered
  rw [List.mem_eraseDups]
  clear h
  induction hrows with
  | nil => simp
  | @cons operand row operands rows hcalls _ ih =>
    rw [List.flatten_cons, List.mem_append, ih]
    constructor
    · rintro (hrow | ⟨o, ho, hnamed⟩)
      · exact ⟨operand, List.mem_cons_self, row, hcalls, hrow⟩
      · exact ⟨o, List.mem_cons_of_mem operand ho, hnamed⟩
    · rintro ⟨o, ho, row', hrow', hmem⟩
      rcases List.mem_cons.mp ho with rfl | ho
      · exact Or.inl (hcalls.unique hrow' ▸ hmem)
      · exact Or.inr ⟨o, ho, row', hrow', hmem⟩

/-- More operands name no fewer platforms. -/
theorem mem_of_subset {operands' : List Node} {platforms' : List String} (h : ∀ o ∈ operands, o ∈ operands')
    (hunites : Unites operands platforms) (hunites' : Unites operands' platforms') :
    ∀ platform ∈ platforms, platform ∈ platforms' := by
  intro platform hplatform
  obtain ⟨operand, hoperand, hnamed⟩ := (mem_of_unites hunites).mp hplatform
  exact (mem_of_unites hunites').mpr ⟨operand, h operand hoperand, hnamed⟩

/-- Operands in another order, or more or less often, are as good and name the same platforms. -/
theorem ofDisjunction_congr {operands' : List Node} (h : ∀ operand, operand ∈ operands' ↔ operand ∈ operands) :
    ((∃ platforms, ofDisjunction (.chain .or operands') = .ok platforms) ↔
      ∃ platforms, ofDisjunction (.chain .or operands) = .ok platforms) ∧
    ∀ platforms platforms', ofDisjunction (.chain .or operands) = .ok platforms →
      ofDisjunction (.chain .or operands') = .ok platforms' →
      ∀ platform, platform ∈ platforms' ↔ platform ∈ platforms := by
  obtain ⟨haccepted, hmeaning, -⟩ := ofDisjunction_decided operands
  obtain ⟨haccepted', hmeaning', -⟩ := ofDisjunction_decided operands'
  refine ⟨?_, ?_⟩
  · rw [haccepted, haccepted']
    simp only [h]
  · intro platforms platforms' hplatforms hplatforms' platform
    have hunites := hmeaning platforms hplatforms
    have hunites' := hmeaning' platforms' hplatforms'
    exact ⟨mem_of_subset (fun o ho => (h o).mp ho) hunites' hunites platform,
      mem_of_subset (fun o ho => (h o).mpr ho) hunites hunites' platform⟩

/-- One more operand that calls a category leaves all platforms where they are. -/
theorem ofDisjunction_insert {before after : List Node} {row : List String} (h : Calls operand row)
    (hplatforms : ofDisjunction (.chain .or (before ++ after)) = .ok platforms) :
    ∃ platforms', ofDisjunction (.chain .or (before ++ operand :: after)) = .ok platforms' ∧
      ∀ platform ∈ platforms, platform ∈ platforms' := by
  obtain ⟨haccepted, hmeaning, -⟩ := ofDisjunction_decided (before ++ after)
  have hsubset : ∀ o ∈ before ++ after, o ∈ before ++ operand :: after := by
    intro o ho
    rcases List.mem_append.mp ho with ho | ho
    · exact List.mem_append_left _ ho
    · exact List.mem_append_right before (List.mem_cons_of_mem operand ho)
  have hcalls : ∀ o ∈ before ++ operand :: after, ∃ row, Calls o row := by
    intro o ho
    rw [List.mem_append, List.mem_cons] at ho
    have hold := haccepted.mp ⟨platforms, hplatforms⟩ o
    rcases ho with ho | rfl | ho
    · exact hold (List.mem_append_left after ho)
    · exact ⟨row, h⟩
    · exact hold (List.mem_append_right before ho)
  obtain ⟨platforms', hplatforms', hunites'⟩ := unites_of_calls hcalls
  exact ⟨platforms', hplatforms', mem_of_subset hsubset (hmeaning platforms hplatforms) hunites'⟩

/-! ## Arguments -/

theorem ofDisjunction_of_other {body : Node} (h : ∀ operands, body ≠ .chain .or operands) :
    ofDisjunction body = .error (.unexpected "lambda body" "boolean OR" body.describe) := by
  unfold ofDisjunction
  split
  · rename_i operands
    exact absurd rfl (h operands)
  · rfl

theorem exists_operands_of_ofDisjunction {body : Node} (h : ofDisjunction body = .ok platforms) :
    ∃ operands, body = .chain .or operands ∧ Unites operands platforms := by
  by_cases hbody : ∃ operands, body = .chain .or operands
  · obtain ⟨operands, rfl⟩ := hbody
    exact ⟨operands, rfl, (ofDisjunction_decided operands).2.1 platforms h⟩
  · rw [ofDisjunction_of_other (fun operands hoperands => hbody ⟨operands, hoperands⟩)] at h
    cases h

/-- Every platform that an argument names is one of a category. -/
theorem listed_of_ofArgument {argument : Node} (h : ofArgument argument = .ok platforms) :
    ∀ platform ∈ platforms, ∃ row ∈ categories, platform ∈ row.2 := by
  intro platform hplatform
  unfold ofArgument at h
  split at h
  · obtain ⟨operands, rfl, hunites⟩ := exists_operands_of_ofDisjunction h
    obtain ⟨operand, -, row, hcalls, hmem⟩ := (mem_of_unites hunites).mp hplatform
    cases hcalls with
    | call hrow => exact ⟨_, hrow, hmem⟩
  · split at h
    · exact ⟨_, ofCategory_eq_ok.mp h, hplatform⟩
    · cases h

/-- Only a disjunction of no operands names no platform. -/
theorem ofArgument_ne_nil {argument : Node} (hargument : argument ≠ .lambda (.chain .or []))
    (h : ofArgument argument = .ok platforms) : platforms ≠ [] := by
  unfold ofArgument at h
  split at h
  · obtain ⟨operands, rfl, hunites⟩ := exists_operands_of_ofDisjunction h
    cases operands with
    | nil => exact absurd rfl hargument
    | cons first rest =>
      obtain ⟨rows, hrows, -⟩ := hunites.ordered
      cases hrows with
      | @cons _ row _ rows hcalls _ =>
        have hne : row ≠ [] := by
          cases hcalls with
          | call hrow => exact ne_nil_of_mem_categories _ hrow
        obtain ⟨platform, hplatform⟩ := List.exists_mem_of_ne_nil row hne
        apply List.ne_nil_of_mem (a := platform)
        exact (mem_of_unites hunites).mpr ⟨first, List.mem_cons_self, row, hcalls, hplatform⟩
  · split at h
    · exact ne_nil_of_mem_categories _ (ofCategory_eq_ok.mp h)
    · cases h

/-- **The platforms that a disjunction names.** It names some just when every operand is a call of a category by its
    bare name and without arguments. They are then the platforms of these categories in the order in which they are
    mentioned first, and none comes twice. Otherwise the error is that of the first operand that is no such call. It
    is the one that this operand alone would be, but for the place that it tells.

    Operands in another order, or more or less often, make no difference to whether platforms are named nor to which
    they are, and one more operand that calls a category takes none away. What is no disjunction names no
    platforms. -/
theorem ofDisjunction_unites (operands : List Node) :
    ((∃ platforms, ofDisjunction (.chain .or operands) = .ok platforms) ↔
      ∀ operand ∈ operands, ∃ row, Calls operand row) ∧
    (∀ platforms, ofDisjunction (.chain .or operands) = .ok platforms → Unites operands platforms) ∧
    (∀ e, ofDisjunction (.chain .or operands) = .error e ↔ FirstFault operands e) ∧
    (∀ operand fault, OperandFault operand fault → ofDisjunction (.chain .or [operand]) = .error (fault 0)) ∧
    (∀ operands' : List Node, (∀ operand, operand ∈ operands' ↔ operand ∈ operands) →
      ((∃ platforms, ofDisjunction (.chain .or operands') = .ok platforms) ↔
        ∃ platforms, ofDisjunction (.chain .or operands) = .ok platforms) ∧
      ∀ platforms platforms', ofDisjunction (.chain .or operands) = .ok platforms →
        ofDisjunction (.chain .or operands') = .ok platforms' →
        ∀ platform, platform ∈ platforms' ↔ platform ∈ platforms) ∧
    (∀ before after, operands = before ++ after → ∀ operand row, Calls operand row →
      ∀ platforms, ofDisjunction (.chain .or operands) = .ok platforms →
      ∃ platforms', ofDisjunction (.chain .or (before ++ operand :: after)) = .ok platforms' ∧
        ∀ platform ∈ platforms, platform ∈ platforms') ∧
    (∀ body, (∀ operands, body ≠ .chain .or operands) →
      ofDisjunction body = .error (.unexpected "lambda body" "boolean OR" body.describe)) := by
  obtain ⟨haccepted, hmeaning, hfault⟩ := ofDisjunction_decided operands
  refine ⟨haccepted, hmeaning, hfault, ?_, ?_, ?_, ?_⟩
  · intro operand fault hoperand
    exact ofOperands_cons_of_operandFault hoperand [] 0 []
  · intro operands' hsame
    exact ofDisjunction_congr hsame
  · rintro before after rfl operand row hcalls platforms hplatforms
    exact ofDisjunction_insert hcalls hplatforms
  · intro body hother
    exact ofDisjunction_of_other hother

/-- The call of a category. -/
def calling (category : String) : Node := .call (.name category) [] []

/-- Three categories, two of which overlap. -/
def overlappingCalls : List Node := [calling "POSIX", calling "LINUX", calling "WINDOWS"]

/-- The same ones in another order, one of them twice. -/
def reorderedCalls : List Node := [calling "WINDOWS", calling "LINUX", calling "POSIX", calling "LINUX"]

theorem ofDisjunction_unites_overlappingCalls :
    ofDisjunction (.chain .or overlappingCalls) =
      .ok ["linux", "darwin", "freebsd", "windows", "win32", "cygwin"] ∧
    Unites overlappingCalls ["linux", "darwin", "freebsd", "windows", "win32", "cygwin"] ∧
    (∃ platforms, ofDisjunction (.chain .or reorderedCalls) = .ok platforms ∧
      ∀ platform, platform ∈ platforms ↔
        platform ∈ ["linux", "darwin", "freebsd", "windows", "win32", "cygwin"]) ∧
    FirstFault [calling "LINUX", .str "BSD", calling "SOLARIS"]
      (.shape "lambda OR operand 1" "call" (Node.str "BSD").describe) := by
  have hok : ofDisjunction (.chain .or overlappingCalls) =
      .ok ["linux", "darwin", "freebsd", "windows", "win32", "cygwin"] := rfl
  have hsame : ∀ operand, operand ∈ reorderedCalls ↔ operand ∈ overlappingCalls := by
    intro operand
    simp only [reorderedCalls, overlappingCalls, List.mem_cons, List.not_mem_nil]
    tauto
  obtain ⟨-, hunites, -, -, hcongr, -, -⟩ := ofDisjunction_unites overlappingCalls
  obtain ⟨hagree, hnamed⟩ := hcongr reorderedCalls hsame
  obtain ⟨platforms, hplatforms⟩ := hagree.mpr ⟨_, hok⟩
  refine ⟨hok, hunites _ hok, ⟨platforms, hplatforms, hnamed _ platforms hok hplatforms⟩, ?_⟩
  exact ((ofDisjunction_unites [calling "LINUX", .str "BSD", calling "SOLARIS"]).2.2.1 _).mp rfl

/-- The place makes a difference: an operand that is no call is another error behind one that calls a category than
    it is alone. -/
theorem ofDisjunction_tells_place :
    (∃ row, Calls (calling "LINUX") row) ∧ (∀ row, ¬Calls (.str "BSD") row) ∧
      ofDisjunction (.chain .or [calling "LINUX", .str "BSD"]) ≠ ofDisjunction (.chain .or [.str "BSD"]) := by
  refine ⟨⟨["linux"], .call (by decide)⟩, ?_, ?_⟩
  · rintro row ⟨⟩
  · intro heq
    have hsecond : ofDisjunction (.chain .or [calling "LINUX", .str "BSD"]) =
        .error (.shape "lambda OR operand 1" "call" "string") := rfl
    have halone : ofDisjunction (.chain .or [.str "BSD"]) =
        .error (.shape "lambda OR operand 0" "call" "string") := rfl
    rw [hsecond, halone, Except.error.injEq, Error.shape.injEq] at heq
    exact absurd heq.1 (by decide)

end Platform
end TableSpec
