import TableSpec.Proofs.InPlace
import TableSpec.Proofs.Platform.Disjunction
import TableSpec.Schema

/-!
# `Proofs.Platform.Merging` — platforms that are merged into a schema

Platforms come into a schema by their names, by a category, or by a disjunction of categories. The last two may fail,
and a disjunction may do so after it has named some platforms. A schema that is changed in place takes them in one by
one, but not before all of them are known: so a merge that fails leaves nothing behind (`realizes_merge`).

What a merge names, or what is wrong with it, has nothing to do with the schema (`Merge.Names`, `Merge.Fault`). So
after any merges the platforms are those that were there and those that the successful merges name, whatever their
order is and however often one of them comes (`mem_platforms_foldl`, `foldl_after_congr`).

## Contents
- `Schema.Merge`, `Merge.act`: merges, and merges in place. `realizes_merge`.
- `Merge.Names`, `Merge.Fault`: what a merge names, and what is wrong with it. `merge_of_names`, `merge_of_fault`.
- `reply`, `after`, `events`: runs. `after_of_names`, `after_of_fault`, `events_eq_map`.
- `mem_platforms_foldl`, `after_of_contained`, `foldl_after_congr`.
- `merges_unite`: all of it.
-/

namespace TableSpec
namespace Schema

/-! ## Merges -/

/-- What is merged into the platforms of a schema: platforms by their names, those of a category, or those of a
    disjunction of categories. -/
inductive Merge where
  | platforms (names : List String)
  | category (key : String)
  | disjunction (body : Node)

/-- The schema with what is merged into it. -/
def merge (m : Merge) (s : Schema) : Except Error Schema :=
  match m with
  | .platforms names => .ok (s.addPlatforms names)
  | .category key => s.addCategory key
  | .disjunction body => s.addDisjunction body

/-- Put platforms in one after the other. -/
def putPlatforms (names : List String) : InPlace Schema Unit :=
  names.forM fun name => modify (fun s => { s with platforms := s.platforms.insert name })

/-- The platforms that are merged, or why there are none. -/
def Merge.named : Merge → Except Error (List String)
  | .platforms names => .ok names
  | .category key => Platform.ofCategory key
  | .disjunction body => Platform.ofDisjunction body

/-- The merge as a change in place. Nothing is put in before all platforms are known. -/
def Merge.act (m : Merge) : InPlace Schema Unit := do
  let names ← InPlace.ofResult m.named
  putPlatforms names

variable {s t : Schema} {m : Merge} {merges merges' : List Merge} {row : List String} {e : Error}

/-- Platforms that are put in one after the other are united with those that are there. -/
theorem run_putPlatforms (names : List String) (s : Schema) :
    (putPlatforms names).run s = (.ok (), s.addPlatforms names) := by
  have hstep : ∀ (platforms : KeySet) (name : String),
      InPlace.run (modify fun s : Schema => { s with platforms := s.platforms.insert name })
        { s with platforms := platforms } = (.ok (), { s with platforms := platforms.insert name }) :=
    fun _ _ => rfl
  exact InPlace.run_forM hstep names s.platforms

/-- The three ways to merge differ only in how the platforms are named. -/
theorem merge_eq (m : Merge) (s : Schema) : merge m s = m.named.map s.addPlatforms := by
  cases m <;> rfl

/-- Merging in place is merging: what can fail comes first. -/
theorem realizes_merge (m : Merge) : InPlace.Realizes m.act (merge m) := by
  intro s
  unfold Merge.act
  rw [InPlace.run_bind, InPlace.run_ofResult]
  cases hnamed : m.named with
  | ok names =>
    have hmerge : merge m s = .ok (s.addPlatforms names) := by
      rw [merge_eq, hnamed]
      rfl
    rw [InPlace.outcome_of_ok hmerge]
    exact run_putPlatforms names s
  | error e =>
    have hmerge : merge m s = .error e := by
      rw [merge_eq, hnamed]
      rfl
    rw [InPlace.outcome_of_error hmerge]

/-! ## What a merge names -/

/-- The platforms that a merge names, when nothing is wrong with it. -/
inductive Merge.Names : Merge → List String → Prop where
  | platforms {names : List String} : Names (.platforms names) names
  | category {key : String} {row : List String} (h : (key, row) ∈ Platform.categories) : Names (.category key) row
  | disjunction {operands : List Node} {row : List String} (h : Platform.Unites operands row) :
      Names (.disjunction (.chain .or operands)) row

/-- What is wrong with a merge that names no platforms: there is no such category, one of the operands calls no
    category, or it is no disjunction at all. -/
inductive Merge.Fault : Merge → Error → Prop where
  | unlisted {key : String} (h : key ∉ Platform.categories.map Prod.fst) :
      Fault (.category key) (.lookup key "table categories")
  | operand {operands : List Node} {e : Error} (h : Platform.FirstFault operands e) :
      Fault (.disjunction (.chain .or operands)) e
  | other {body : Node} (h : ∀ operands, body ≠ .chain .or operands) :
      Fault (.disjunction body) (.unexpected "lambda body" "boolean OR" body.describe)

end Schema

/-- A disjunction names the platforms of the categories that its operands call. -/
theorem Platform.ofDisjunction_of_unites {operands : List Node} {row : List String} (h : Unites operands row) :
    ofDisjunction (.chain .or operands) = .ok row := by
  obtain ⟨rows, hrows, rfl⟩ := h.ordered
  rw [← addNew_nil_eq_eraseDups]
  exact ofOperands_of_calls hrows [] 0

namespace Schema

variable {s t : Schema} {m : Merge} {merges merges' : List Merge} {row : List String} {e : Error}

/-- A merge that names platforms unites them with those of any schema. -/
theorem merge_of_names (h : m.Names row) (s : Schema) : merge m s = .ok (s.addPlatforms row) := by
  have hnamed : m.named = .ok row := by
    cases h with
    | platforms => rfl
    | category h => exact Platform.ofCategory_eq_ok.mpr h
    | disjunction h => exact Platform.ofDisjunction_of_unites h
  rw [merge_eq, hnamed]
  rfl

/-- What is wrong with a merge is its error, whatever the schema is. -/
theorem merge_of_fault (h : m.Fault e) (s : Schema) : merge m s = .error e := by
  have hnamed : m.named = .error e := by
    cases h with
    | unlisted h => exact Platform.ofCategory_of_unlisted h
    | @operand operands _ h => exact ((Platform.ofDisjunction_decided operands).2.2 e).mpr h
    | other h => exact Platform.ofDisjunction_of_other h
  rw [merge_eq, hnamed]
  rfl

/-- A merge names platforms, or something is wrong with it. -/
theorem names_or_fault (m : Merge) : (∃ row, m.Names row) ∨ ∃ e, m.Fault e := by
  cases m with
  | platforms names => exact Or.inl ⟨names, .platforms⟩
  | category key =>
    by_cases hlisted : key ∈ Platform.categories.map Prod.fst
    · obtain ⟨entry, hentry, rfl⟩ := List.mem_map.mp hlisted
      exact Or.inl ⟨entry.2, .category hentry⟩
    · exact Or.inr ⟨_, .unlisted hlisted⟩
  | disjunction body =>
    by_cases hbody : ∃ operands, body = .chain .or operands
    · obtain ⟨operands, rfl⟩ := hbody
      rcases Platform.calls_or_firstFault operands with hcalls | ⟨e, he⟩
      · obtain ⟨row, -, hunites⟩ := Platform.unites_of_calls hcalls
        exact Or.inl ⟨row, .disjunction hunites⟩
      · exact Or.inr ⟨e, .operand he⟩
    · exact Or.inr ⟨_, .other (fun operands heq => hbody ⟨operands, heq⟩)⟩

/-! ## Runs -/

/-- Whether a merge succeeds, and with which error it fails. -/
def reply (s : Schema) (m : Merge) : Except Error Unit := (m.act.run s).1

/-- The schema after a merge, which may have failed. -/
def after (s : Schema) (m : Merge) : Schema := (m.act.run s).2

/-- A merge and the answer to it. -/
structure Event where
  merge : Merge
  reply : Except Error Unit

/-- The merges of a run with the answers to them. -/
def events (s : Schema) : List Merge → List Event
  | [] => []
  | m :: rest => ⟨m, s.reply m⟩ :: (s.after m).events rest

/-! ### One merge -/

theorem act_of_names (h : m.Names row) (s : Schema) : m.act.run s = (.ok (), s.addPlatforms row) :=
  (realizes_merge m).run_of_ok (merge_of_names h s)

theorem act_of_fault (h : m.Fault e) (s : Schema) : m.act.run s = (.error e, s) :=
  (realizes_merge m).run_of_error (merge_of_fault h s)

theorem reply_of_names (h : m.Names row) (s : Schema) : s.reply m = .ok () := by
  rw [reply, act_of_names h]

theorem after_of_names (h : m.Names row) (s : Schema) : s.after m = s.addPlatforms row := by
  rw [after, act_of_names h]

theorem reply_of_fault (h : m.Fault e) (s : Schema) : s.reply m = .error e := by
  rw [reply, act_of_fault h]

/-- **A merge that fails leaves nothing behind.** -/
theorem after_of_fault (h : m.Fault e) (s : Schema) : s.after m = s := by
  rw [after, act_of_fault h]

/-- When a merge succeeds, and what its errors are. -/
theorem reply_decided (s : Schema) (m : Merge) :
    (s.reply m = .ok () ↔ ∃ row, m.Names row) ∧ ∀ e, s.reply m = .error e ↔ m.Fault e := by
  have hok : (∃ row, m.Names row) → ∃ u, s.reply m = .ok u ∧ True := fun ⟨row, h⟩ => ⟨(), reply_of_names h s, trivial⟩
  obtain ⟨haccepted, -, herror⟩ := decided hok (fun e h => reply_of_fault h s) (names_or_fault m)
  refine ⟨?_, herror⟩
  rw [← haccepted]
  exact ⟨fun h => ⟨(), h⟩, fun ⟨_, h⟩ => h⟩

/-- The answer to a merge does not depend on the schema. -/
theorem reply_eq (s t : Schema) (m : Merge) : s.reply m = t.reply m := by
  rcases names_or_fault m with ⟨row, h⟩ | ⟨e, h⟩
  · rw [reply_of_names h, reply_of_names h]
  · rw [reply_of_fault h, reply_of_fault h]

/-- **One merge.** A platform is there afterwards if it was there before or the merge names it. -/
theorem mem_platforms_after {platform : String} :
    platform ∈ (s.after m).platforms ↔ platform ∈ s.platforms ∨ ∃ row, m.Names row ∧ platform ∈ row := by
  rcases names_or_fault m with ⟨row, h⟩ | ⟨e, h⟩
  · have hunique : ∀ row', m.Names row' → ∀ platform ∈ row', platform ∈ s.platforms ∨ platform ∈ row := by
      intro row' h' platform hplatform
      have hsame : s.addPlatforms row' = s.addPlatforms row := by rw [← after_of_names h', after_of_names h]
      have hmem : platform ∈ (s.addPlatforms row').platforms := KeySet.mem_union.mpr (Or.inr hplatform)
      rw [hsame] at hmem
      exact KeySet.mem_union.mp hmem
    rw [after_of_names h]
    show platform ∈ s.platforms.union row ↔ _
    rw [KeySet.mem_union]
    constructor
    · rintro (hold | hnew)
      · exact Or.inl hold
      · exact Or.inr ⟨row, h, hnew⟩
    · rintro (hold | ⟨row', h', hnew⟩)
      · exact Or.inl hold
      · exact hunique row' h' platform hnew
  · rw [after_of_fault h]
    constructor
    · exact Or.inl
    · rintro (hold | ⟨row, hnames, -⟩)
      · exact hold
      · have hreply := reply_of_names hnames s
        rw [reply_of_fault h] at hreply
        cases hreply

/-- A merge changes nothing but the platforms. -/
theorem after_eq_with (s : Schema) (m : Merge) : s.after m = { s with platforms := (s.after m).platforms } := by
  rcases names_or_fault m with ⟨row, h⟩ | ⟨e, h⟩
  · rw [after_of_names h]
    rfl
  · rw [after_of_fault h]

/-- Platforms that are there already change nothing. -/
theorem after_of_contained (h : m.Names row) (hrow : ∀ platform ∈ row, platform ∈ s.platforms) : s.after m = s := by
  have hunion : s.platforms.union row = s.platforms := by
    apply KeySet.ext_mem
    intro platform
    rw [KeySet.mem_union]
    exact ⟨fun hmem => hmem.elim id (hrow platform), Or.inl⟩
  rw [after_of_names h, addPlatforms, hunion]

/-! ### Many merges -/

/-- Each merge of a run is answered as it would be without those before it. -/
theorem events_eq_map (s t : Schema) (merges : List Merge) :
    s.events merges = merges.map (fun m => ⟨m, t.reply m⟩) := by
  induction merges generalizing s with
  | nil => rfl
  | cons m rest ih => rw [events, List.map_cons, ih, reply_eq s t]

/-- **After a run** the platforms are those from before it and those that its merges name. -/
theorem mem_platforms_foldl (merges : List Merge) (s : Schema) {platform : String} :
    platform ∈ (merges.foldl after s).platforms ↔
      platform ∈ s.platforms ∨ ∃ m ∈ merges, ∃ row, m.Names row ∧ platform ∈ row := by
  induction merges generalizing s with
  | nil => simp
  | cons m rest ih =>
    rw [List.foldl_cons, ih, mem_platforms_after, or_assoc, List.exists_mem_cons_iff]

theorem foldl_after_eq_with (merges : List Merge) (s : Schema) :
    merges.foldl after s = { s with platforms := (merges.foldl after s).platforms } := by
  induction merges generalizing s with
  | nil => rfl
  | cons m rest ih =>
    rw [List.foldl_cons, ih, after_eq_with s m]

/-- **Neither the order of merges matters nor how often one of them comes.** -/
theorem foldl_after_congr (h : ∀ m, m ∈ merges' ↔ m ∈ merges) (s : Schema) :
    merges'.foldl after s = merges.foldl after s := by
  have hplatforms : (merges'.foldl after s).platforms = (merges.foldl after s).platforms := by
    apply KeySet.ext_mem
    intro platform
    simp only [mem_platforms_foldl, h]
  rw [foldl_after_eq_with merges', hplatforms, ← foldl_after_eq_with]

/-! ## The union -/

/-- **Merging is a union.** Let any merges be made into a schema, some of which may fail.

    Then its platforms are those that were there and those that the successful merges name. A merge is answered in the
    same way wherever it stands: it succeeds when it names platforms, and fails when something is wrong with it, be it
    with the last operand of a disjunction only. It leaves nothing behind then, and a merge that names what is there
    already changes nothing. The same merges in another order, or more or less often, make the same schema and are
    answered in the same way. And columns, foreign keys and whether the schema is an extension stay as they
    are.

    Each merge in place comes to what `addPlatforms`, `addCategory` and `addDisjunction` give, and to the schema as
    it was where they fail. -/
theorem merges_unite (s : Schema) (merges : List Merge) :
    let s' := merges.foldl after s
    let past := s.events merges
    (∀ platform, platform ∈ s'.platforms ↔ platform ∈ s.platforms ∨
      ∃ event ∈ past, event.reply = .ok () ∧ ∃ row, event.merge.Names row ∧ platform ∈ row) ∧
    (past.map Event.merge = merges ∧ ∀ event ∈ past, ∀ t : Schema, t.reply event.merge = event.reply) ∧
    (∀ m, (s'.reply m = .ok () ↔ ∃ row, m.Names row) ∧ ∀ e, s'.reply m = .error e ↔ m.Fault e) ∧
    (∀ m e, s'.reply m = .error e → s'.after m = s') ∧
    (∀ m row, m.Names row → (∀ platform ∈ row, platform ∈ s'.platforms) → s'.after m = s') ∧
    (∀ merges', (∀ m, m ∈ merges' ↔ m ∈ merges) → merges'.foldl after s = s' ∧
      ∀ event ∈ s.events merges', ∀ event' ∈ past, event.merge = event'.merge → event.reply = event'.reply) ∧
    (s'.columns = s.columns ∧ s'.foreignKeys = s.foreignKeys ∧ s'.extended = s.extended) ∧
    (∀ names, s'.reply (.platforms names) = .ok () ∧ s'.after (.platforms names) = s'.addPlatforms names) ∧
    (∀ key, (∀ t, s'.addCategory key = .ok t → s'.reply (.category key) = .ok () ∧ s'.after (.category key) = t) ∧
      ∀ e, s'.addCategory key = .error e →
        s'.reply (.category key) = .error e ∧ s'.after (.category key) = s') ∧
    (∀ body, (∀ t, s'.addDisjunction body = .ok t →
        s'.reply (.disjunction body) = .ok () ∧ s'.after (.disjunction body) = t) ∧
      ∀ e, s'.addDisjunction body = .error e →
        s'.reply (.disjunction body) = .error e ∧ s'.after (.disjunction body) = s') := by
  intro s' past
  have hpast : past = merges.map (fun m => ⟨m, s.reply m⟩) := events_eq_map s s merges
  have hreply : ∀ merges', ∀ event ∈ s.events merges', ∀ t : Schema, t.reply event.merge = event.reply := by
    intro merges' event hevent t
    rw [events_eq_map s t] at hevent
    obtain ⟨m, -, rfl⟩ := List.mem_map.mp hevent
    rfl
  refine ⟨?_, ⟨?_, hreply merges⟩, reply_decided s', ?_, fun m row => after_of_contained, ?_, ?_, ?_, ?_, ?_⟩
  · intro platform
    rw [mem_platforms_foldl, hpast]
    refine or_congr_right ⟨?_, ?_⟩
    · -- a merge that names platforms has succeeded
      rintro ⟨m, hm, row, hrow, hplatform⟩
      exact ⟨⟨m, s.reply m⟩, List.mem_map_of_mem hm, reply_of_names hrow s, row, hrow, hplatform⟩
    · rintro ⟨event, hevent, -, row, hrow, hplatform⟩
      obtain ⟨m, hm, rfl⟩ := List.mem_map.mp hevent
      exact ⟨m, hm, row, hrow, hplatform⟩
  · rw [hpast, List.map_map]
    exact List.map_id merges
  · intro m e he
    exact after_of_fault (((reply_decided s' m).2 e).mp he) s'
  · intro merges' h
    refine ⟨foldl_after_congr h s, ?_⟩
    intro event hevent event' hevent' hsame
    rw [← hreply merges' event hevent s, hsame]
    exact hreply merges event' hevent' s
  · show (merges.foldl after s).columns = _ ∧ (merges.foldl after s).foreignKeys = _ ∧
      (merges.foldl after s).extended = _
    rw [foldl_after_eq_with]
    exact ⟨rfl, rfl, rfl⟩
  · exact fun names => ((realizes_merge (.platforms names)).answers s').1 _ rfl
  · exact fun key => (realizes_merge (.category key)).answers s'
  · exact fun body => (realizes_merge (.disjunction body)).answers s'

/-- Two categories and a name, a disjunction that fails at its second operand, and a category that there is not. -/
def mixedMerges : List Merge :=
  [.category "WINDOWS", .disjunction (.chain .or [Platform.calling "LINUX", .str "BSD"]), .platforms ["beos", "win32"],
    .category "SOLARIS", .disjunction (.chain .or [Platform.calling "DARWIN", Platform.calling "FREEBSD"])]

/-- The same ones in another order, one of them twice. -/
def reorderedMerges : List Merge :=
  [.category "SOLARIS", .disjunction (.chain .or [Platform.calling "DARWIN", Platform.calling "FREEBSD"]),
    .platforms ["beos", "win32"], .category "WINDOWS", .platforms ["beos", "win32"],
    .disjunction (.chain .or [Platform.calling "LINUX", .str "BSD"])]

theorem merges_unite_mixed :
    (mixedMerges.foldl after {}).platforms.toList = ["beos", "cygwin", "darwin", "freebsd", "win32", "windows"] ∧
    reorderedMerges.foldl after {} = mixedMerges.foldl after {} ∧
    (mixedMerges.foldl after {}).after (.category "FREEBSD") = mixedMerges.foldl after {} ∧
    (mixedMerges.foldl after {}).reply (.disjunction (.chain .or [Platform.calling "LINUX", .str "BSD"])) =
      .error (.shape "lambda OR operand 1" "call" (Node.str "BSD").describe) := by
  have hplatforms : (mixedMerges.foldl after {}).platforms.toList =
      ["beos", "cygwin", "darwin", "freebsd", "win32", "windows"] := by decide +kernel
  have hsame : ∀ m, m ∈ reorderedMerges ↔ m ∈ mixedMerges := by
    intro m
    simp only [reorderedMerges, mixedMerges, List.mem_cons, List.not_mem_nil]
    tauto
  obtain ⟨-, -, hreply, -, hcontained, hcongr, -⟩ := merges_unite {} mixedMerges
  refine ⟨hplatforms, (hcongr reorderedMerges hsame).1, ?_, ?_⟩
  · apply hcontained _ ["freebsd"] (.category (by decide))
    intro platform hplatform
    rw [← KeySet.mem_toList, hplatforms, List.mem_singleton.mp hplatform]
    decide
  · -- the first operand is fine, the second one is no call
    refine ((hreply _).2 _).mpr (.operand ⟨[Platform.calling "LINUX"], .str "BSD", [], _, rfl, ?_, .notCall ?_, rfl⟩)
    · intro operand hoperand
      rw [List.mem_singleton.mp hoperand]
      exact ⟨["linux"], .call (by decide)⟩
    · rintro callee args keywords ⟨⟩

end Schema
end TableSpec
