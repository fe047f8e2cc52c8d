import Casa.CanonicalJson
import Casa.SeparatedText
import Mathlib.Data.List.DropRight

/-! `path_scope` (`hooks.py`): the prefixes that a tool may write and read below, tested on the
joined text of a path that has been normalised by hand. -/

namespace Casa.PathScope
open CanonicalJson (Points Value points)
open SeparatedText (not_mem_of_mem_splitOn)

def slash : ℕ := '/'.toNat
def root : Points := [slash]
def dot : Points := points ['.']
def dotdot : Points := points ['.', '.']

/-- `re.sub(r"/{2,}", "/", raw)`. -/
def collapse : Points → Points
  | [] => []
  | c :: rest => if c = slash ∧ rest.head? = some slash then collapse rest else c :: collapse rest

/-- `PurePosixPath(raw).parts` of a text without repeated slashes. -/
def parts (raw : Points) : List Points :=
  let names := (raw.splitOn slash).filter fun x => x ≠ [] ∧ x ≠ dot
  if raw.head? = some slash then root :: names else names

def resolveStep (resolved : List Points) (part : Points) : List Points :=
  if part = dotdot then
    if resolved ≠ [] ∧ resolved.getLast? ≠ some root then resolved.dropLast else resolved
  else if part ≠ dot then resolved ++ [part]
  else resolved

/-- `"/".join(names)`. -/
def join (names : List Points) : Points := root.intercalate names

def normalizePath (raw : Points) : Points :=
  let resolved := (parts (collapse raw)).foldl resolveStep []
  if resolved.head? = some root then slash :: join resolved.tail else join resolved

/-- `_has_prefix` of one prefix. -/
def admits (norm p : Points) : Bool :=
  norm = p ∨ (p.rdropWhile (· == slash) ++ root) <+: norm

def hasPrefix (norm : Points) (prefixes : List Points) : Bool := prefixes.any (admits norm)

/-- `UnknownPolicyError`, with the parameter that it names and what is wrong about it. -/
inductive UnknownPolicy where
  | notList (param : String) (got : Value)
  | notStrings (param : String) (bad : List Value)

def text? : Value → Option Points
  | .str s => some s
  | _ => none

/-- `_require_prefix_list("path_scope", param, value) or []`. -/
def requirePrefixList (param : String) : Value → Except UnknownPolicy (List Points)
  | .null => .ok []
  | .arr items =>
      match items.filter fun item => (text? item).isNone with
      | [] => .ok (items.filterMap text?)
      | bad => .error (.notStrings param bad)
  | got => .error (.notList param got)

/-- `tool_name`; the hook has no opinion on any other tool. -/
inductive Tool where
  | read | write | edit
  | other (name : String)
deriving DecidableEq

/-- A refusal names the tool, the path as it was given and the prefixes. -/
inductive Decision where
  | allow
  | deny (tool : Tool) (raw : Points) (prefixes : List Points)
deriving DecidableEq

def Tool.choose {α : Type} (writable readable : α) : Tool → Option α
  | .write => some writable
  | .edit => some writable
  | .read => some readable
  | .other _ => none

def scopeHook (writable readable : List Points) (tool : Tool) (raw : Points) : Decision :=
  match tool.choose writable readable with
  | none => .allow
  | some prefixes =>
      if hasPrefix (normalizePath raw) prefixes then .allow else .deny tool raw prefixes

def makePathScopeHookV2 (writable readable : Value) :
    Except UnknownPolicy (Tool → Points → Decision) := do
  let writable ← requirePrefixList "writable" writable
  let readable ← requirePrefixList "readable" readable
  pure (scopeHook (writable.map normalizePath) (readable.map normalizePath))

/-! ### Containment by components -/

/-- A path as the sequence of its components, below the root or not. -/
structure NormalForm where
  absolute : Bool
  names : List Points
deriving DecidableEq

/-- `..` never climbs above the root, nor above where a relative path starts. -/
def climb (names : List Points) (part : Points) : List Points :=
  if part = [] ∨ part = dot then names
  else if part = dotdot then names.dropLast
  else names ++ [part]

def lexical (raw : Points) : NormalForm :=
  ⟨raw.head? = some slash, (raw.splitOn slash).foldl climb []⟩

def NormalForm.Below (p q : NormalForm) : Prop := p.absolute = q.absolute ∧ q.names <+: p.names

instance (p q : NormalForm) : Decidable (p.Below q) := inferInstanceAs (Decidable (_ ∧ _))

/-- What is left of an empty path, of `.` and of `a/..`. -/
def nothing : NormalForm := ⟨false, []⟩

def Contained (listed : List Points) (path : Points) : Prop :=
  ∃ q ∈ listed, (lexical path).Below (lexical q)

def Name (x : Points) : Prop := slash ∉ x ∧ x ≠ [] ∧ x ≠ dot ∧ x ≠ dotdot

def NormalForm.Proper (p : NormalForm) : Prop := ∀ x ∈ p.names, Name x

def NormalForm.text (p : NormalForm) : Points :=
  if p.absolute then slash :: join p.names else join p.names

def NormalForm.stem (p : NormalForm) : Points :=
  (if p.absolute then root else []) ++ p.names.flatMap (· ++ root)

/-! ### Names, joined and split -/

def pieces (s : Points) : List Points := (s.splitOn slash).filter (· ≠ [])

theorem join_append (a : List Points) {t : List Points} (some_ : t ≠ []) :
    join (a ++ t) = a.flatMap (· ++ root) ++ join t := by
  induction a with
  | nil => rfl
  | cons x rest ih =>
    rw [List.cons_append, join, List.intercalate_cons_of_ne_nil (by simp [some_])]
    change x ++ root ++ join (rest ++ t) = _
    rw [ih, List.flatMap_cons, List.append_assoc, List.append_assoc, List.append_assoc]

theorem pieces_cons {x : Points} (name : Name x) (t : Points) :
    pieces (x ++ root ++ t) = x :: pieces t := by
  have whole : x ++ root ++ t = x ++ slash :: t := by simp [root]
  rw [whole, pieces, List.splitOn_append_cons_self_of_not_mem name.1, List.filter_cons_of_pos]
  · rfl
  · simpa using name.2.1

theorem pieces_stem {a : List Points} (names : ∀ x ∈ a, Name x) (t : Points) :
    pieces (a.flatMap (· ++ root) ++ t) = a ++ pieces t := by
  induction a with
  | nil => rfl
  | cons x rest ih =>
    rw [List.forall_mem_cons] at names
    rw [List.flatMap_cons, List.append_assoc, pieces_cons names.1, ih names.2, List.cons_append]

theorem pieces_slash (t : Points) : pieces (slash :: t) = pieces t := by
  simp [pieces, List.splitOn_cons_eq_if_modifyHead]

theorem pieces_join {a : List Points} (names : ∀ x ∈ a, Name x) : pieces (join a) = a := by
  cases a with
  | nil => rfl
  | cons x rest =>
    rw [pieces, join, root, List.splitOn_intercalate _ (fun y inside => (names y inside).1)
      (List.cons_ne_nil x rest)]
    exact List.filter_eq_self.mpr fun y inside => by simpa using (names y inside).2.1

theorem foldl_pieces (s : Points) (names : List Points) :
    (s.splitOn slash).foldl climb names = (pieces s).foldl climb names := by
  unfold pieces
  induction s.splitOn slash generalizing names with
  | nil => rfl
  | cons x rest ih =>
    by_cases empty : x = []
    · simp [empty, climb, ih]
    · simp [empty, ih]

theorem head_collapse (s : Points) : (collapse s).head? = s.head? := by
  fun_induction collapse s with
  | case1 => rfl
  | case2 c rest doubled ih => rw [ih, doubled.2, List.head?_cons, doubled.1]
  | case3 => rfl

theorem split_collapse (s : Points) : ∃ head tail tail', s.splitOn slash = head :: tail ∧
    (collapse s).splitOn slash = head :: tail' ∧
      tail'.filter (· ≠ []) = tail.filter (· ≠ []) := by
  fun_induction collapse s with
  | case1 => exact ⟨[], [], [], rfl, rfl, rfl⟩
  | case2 c rest doubled ih =>
    obtain ⟨head, tail, tail', whole, short, same⟩ := ih
    obtain ⟨more, rfl⟩ := List.head?_eq_some_iff.mp doubled.2
    have first : head = [] := by
      rw [List.splitOn_cons_eq_if_modifyHead, beq_self_eq_true, if_pos rfl] at whole
      exact (List.cons.inj whole).1.symm
    refine ⟨[], (slash :: more).splitOn slash, tail', ?_, first ▸ short, ?_⟩
    · rw [doubled.1, List.splitOn_cons_eq_if_modifyHead slash, beq_self_eq_true, if_pos rfl]
    · rw [whole, first, List.filter_cons_of_neg (by simp), same]
  | case3 c rest single ih =>
    obtain ⟨head, tail, tail', whole, short, same⟩ := ih
    rw [List.splitOn_cons_eq_if_modifyHead, List.splitOn_cons_eq_if_modifyHead, whole, short]
    by_cases cut : c = slash
    · refine ⟨[], head :: tail, head :: tail', by simp [cut], by simp [cut], ?_⟩
      rw [List.filter_cons, List.filter_cons, same]
    · exact ⟨c :: head, tail, tail', by simp [cut], by simp [cut], same⟩

theorem pieces_collapse (s : Points) : pieces (collapse s) = pieces s := by
  obtain ⟨head, tail, tail', whole, short, same⟩ := split_collapse s
  rw [pieces, pieces, whole, short, List.filter_cons, List.filter_cons, same]

/-! ### The normalised text -/

theorem climb_names {names : List Points} {part : Points} (proper : ∀ x ∈ names, Name x)
    (plain : slash ∉ part) : ∀ x ∈ climb names part, Name x := by
  unfold climb
  split
  · exact proper
  · next kept =>
    rw [not_or] at kept
    split
    · exact fun x inside => proper x ((List.dropLast_sublist _).subset inside)
    · next other =>
      intro x inside
      rcases List.mem_append.mp inside with old | new
      · exact proper x old
      · rw [List.mem_singleton.mp new]
        exact ⟨plain, kept.1, kept.2, other⟩

theorem lexical_proper (raw : Points) : (lexical raw).Proper := by
  have fold : ∀ (l names : List Points), (∀ x ∈ names, Name x) → (∀ x ∈ l, slash ∉ x) →
      ∀ x ∈ l.foldl climb names, Name x := by
    intro l
    induction l with
    | nil => exact fun _ proper _ => proper
    | cons part rest ih =>
      intro names proper plain
      rw [List.forall_mem_cons] at plain
      exact ih _ (climb_names proper plain.1) plain.2
  exact fold _ [] (by simp) fun x inside => not_mem_of_mem_splitOn inside

theorem resolveStep_eq {top names : List Points} {part : Points} (rooted : top = [root] ∨ top = [])
    (proper : ∀ x ∈ names, Name x) (some_ : part ≠ []) :
    resolveStep (top ++ names) part = top ++ climb names part := by
  by_cases up : part = dotdot
  · subst up
    have climbed : climb names dotdot = names.dropLast := rfl
    rw [climbed, resolveStep, if_pos rfl]
    cases names using List.reverseRecOn with
    | nil => rcases rooted with rfl | rfl <;> rfl
    | append_singleton init last =>
      have other : last ≠ root := by
        rintro rfl
        exact (proper root (by simp)).1 (by simp [root])
      rw [← List.append_assoc, if_pos (by simp [other]), List.dropLast_concat, List.dropLast_concat]
  · by_cases stay : part = dot
    · simp [resolveStep, climb, stay, show dot ≠ dotdot by decide]
    · simp [resolveStep, climb, stay, up, some_]

theorem resolve_eq {top : List Points} (rooted : top = [root] ∨ top = []) (l : List Points)
    {names : List Points} (proper : ∀ x ∈ names, Name x) (plain : ∀ x ∈ l, slash ∉ x ∧ x ≠ []) :
    (l.filter (· ≠ dot)).foldl resolveStep (top ++ names) = top ++ l.foldl climb names := by
  induction l generalizing names with
  | nil => rfl
  | cons part rest ih =>
    rw [List.forall_mem_cons] at plain
    have later := ih (climb_names proper plain.1.1) plain.2
    rw [← resolveStep_eq rooted proper plain.1.2] at later
    by_cases stay : part = dot
    · rw [List.filter_cons_of_neg (by simp [stay]), List.foldl_cons, ← later, stay]
      rfl
    · rw [List.filter_cons_of_pos (by simp [stay]), List.foldl_cons, List.foldl_cons, later]

theorem normalizePath_eq (raw : Points) : normalizePath raw = (lexical raw).text := by
  have filtered : ((collapse raw).splitOn slash).filter (fun x => x ≠ [] ∧ x ≠ dot) =
      (pieces raw).filter (· ≠ dot) := by
    rw [← pieces_collapse, pieces, List.filter_filter]
    congr 1
    funext x
    simp [Bool.and_comm]
  have plain : ∀ x ∈ pieces raw, slash ∉ x ∧ x ≠ [] := by
    intro x inside
    obtain ⟨inside, some_⟩ := List.mem_filter.mp inside
    exact ⟨not_mem_of_mem_splitOn inside, by simpa using some_⟩
  have names : (lexical raw).names = (pieces raw).foldl climb [] := foldl_pieces raw []
  have top := resolve_eq (.inl rfl) (pieces raw) (List.forall_mem_nil Name) plain
  have bottom := resolve_eq (.inr rfl) (pieces raw) (List.forall_mem_nil Name) plain
  rw [← names] at top bottom
  unfold normalizePath parts NormalForm.text
  simp only [head_collapse, filtered]
  by_cases absolute : raw.head? = some slash
  · have flag : (lexical raw).absolute = true := by simp [lexical, absolute]
    have start : resolveStep [] root = [root] ++ [] := by decide
    rw [if_pos absolute, List.foldl_cons, start, top, flag]
    rfl
  · have flag : (lexical raw).absolute = false := by simp [lexical, absolute]
    rw [if_neg absolute]
    rw [List.nil_append] at bottom
    rw [bottom, flag, List.nil_append, if_neg, if_neg (by decide)]
    intro rooted
    exact (lexical_proper raw root (List.mem_of_mem_head? rooted)).1 (by simp [root])

/-! ### Prefixes -/

theorem foldl_climb {names : List Points} (proper : ∀ x ∈ names, Name x) (acc : List Points) :
    names.foldl climb acc = acc ++ names := by
  induction names generalizing acc with
  | nil => simp
  | cons x rest ih =>
    rw [List.forall_mem_cons] at proper
    obtain ⟨-, some_, here, up⟩ := proper.1
    have added : climb acc x = acc ++ [x] := by simp [climb, some_, here, up]
    rw [List.foldl_cons, added, ih proper.2, List.append_assoc, List.singleton_append]

section Proper
variable {p q : NormalForm}

theorem head_text (proper : p.Proper) : p.text.head? = some slash ↔ p.absolute = true := by
  obtain ⟨absolute, names⟩ := p
  cases absolute with
  | true => exact iff_of_true rfl rfl
  | false =>
    refine iff_of_false ?_ Bool.false_ne_true
    cases names with
    | nil => exact nofun
    | cons x rest =>
      obtain ⟨plain, some_, -⟩ := proper x List.mem_cons_self
      cases x with
      | nil => exact absurd rfl some_
      | cons c x =>
        change (join ((c :: x) :: rest)).head? ≠ _
        rw [join, List.intercalate_cons_cons_left, List.head?_cons]
        rintro same
        cases same
        exact plain List.mem_cons_self

theorem pieces_text (proper : p.Proper) : pieces p.text = p.names := by
  unfold NormalForm.text
  split
  · rw [pieces_slash, pieces_join proper]
  · exact pieces_join proper

theorem lexical_text (proper : p.Proper) : lexical p.text = p := by
  have flag : decide (p.text.head? = some slash) = p.absolute :=
    Bool.eq_iff_iff.mpr (decide_eq_true_iff.trans (head_text proper))
  rw [lexical, flag, foldl_pieces, pieces_text proper, foldl_climb proper, List.nil_append]

theorem text_concat (absolute : Bool) (init : List Points) (last : Points) :
    NormalForm.text ⟨absolute, init ++ [last]⟩ =
      ((if absolute then root else []) ++ init.flatMap (· ++ root)) ++ last := by
  unfold NormalForm.text
  rw [join_append init (by simp)]
  cases absolute <;> simp [join, root]

theorem stem_text (some_ : q.names ≠ []) : q.stem = q.text ++ root := by
  obtain ⟨absolute, names⟩ := q
  cases names using List.reverseRecOn with
  | nil => exact absurd rfl some_
  | append_singleton init last =>
    rw [text_concat]
    simp [NormalForm.stem]

theorem stem_eq (proper : q.Proper) (some_ : q ≠ nothing) :
    q.text.rdropWhile (· == slash) ++ root = q.stem := by
  obtain ⟨absolute, names⟩ := q
  cases names using List.reverseRecOn with
  | nil =>
    cases absolute with
    | true => decide
    | false => exact absurd rfl some_
  | append_singleton init last =>
    have name := proper last (by simp)
    rw [stem_text (by simp), List.rdropWhile_eq_self_iff.mpr]
    intro nonempty
    simp only [text_concat] at nonempty ⊢
    rw [List.getLast_append_of_ne_nil nonempty name.2.1]
    exact fun same => name.1 (beq_iff_eq.mp same ▸ List.getLast_mem _)

theorem head_stem (proper : q.Proper) (some_ : q ≠ nothing) (t : Points) :
    (q.stem ++ t).head? = q.text.head? := by
  by_cases names : q.names = []
  · obtain ⟨absolute, _⟩ := q
    cases names
    cases absolute with
    | true => rfl
    | false => exact absurd rfl some_
  · have nonempty : q.text ≠ [] := by
      intro empty
      rw [← pieces_text proper, empty] at names
      exact names rfl
    rw [stem_text names, List.append_assoc, List.head?_append_of_ne_nil _ nonempty]

theorem below_of_stem (own : p.Proper) (proper : q.Proper) (some_ : q ≠ nothing)
    (starts : q.stem <+: p.text) : p.Below q := by
  obtain ⟨t, whole⟩ := starts
  have names : pieces p.text = q.names ++ pieces t := by
    rw [← whole, NormalForm.stem]
    split
    · rw [root, List.append_assoc, List.singleton_append, pieces_slash, ← root, pieces_stem proper]
    · rw [List.nil_append, pieces_stem proper]
  have rooted : p.text.head? = some slash ↔ q.absolute = true := by
    rw [← head_text proper, ← whole, head_stem proper some_]
  rw [pieces_text own] at names
  exact ⟨Bool.eq_iff_iff.mpr ((head_text own).symm.trans rooted), pieces t, names.symm⟩

theorem stem_of_below (below : p.Below q) (other : p ≠ q) : q.stem <+: p.text := by
  obtain ⟨same, t, names⟩ := below
  have some_ : t ≠ [] := by
    rintro rfl
    rw [List.append_nil] at names
    exact other (by cases p; cases q; simp_all)
  refine ⟨join t, ?_⟩
  rw [NormalForm.stem, NormalForm.text, ← names, same, join_append _ some_]
  cases q.absolute <;> simp [root]

theorem admits_iff (own : p.Proper) (proper : q.Proper) :
    admits p.text q.text = true ↔
      if q = nothing then p.absolute = true ∨ p = nothing else p.Below q := by
  unfold admits
  rw [decide_eq_true_iff]
  by_cases empty : q = nothing
  · subst empty
    rw [if_pos rfl, ← head_text own, or_comm]
    refine or_congr ?_ ⟨fun same => ?_, fun same => same ▸ rfl⟩
    · cases p.text with
      | nil => decide
      | cons c rest => simp [root, nothing, NormalForm.text, join, eq_comm]
    · rw [← lexical_text own, same]
      rfl
  · rw [if_neg empty, stem_eq proper empty]
    constructor
    · rintro (same | starts)
      · have equal := congrArg lexical same
        rw [lexical_text own, lexical_text proper] at equal
        exact equal ▸ ⟨rfl, List.prefix_rfl⟩
      · exact below_of_stem own proper empty starts
    · intro below
      by_cases same : p = q
      · exact .inl (same ▸ rfl)
      · exact .inr (stem_of_below below same)

end Proper

/-! ### The hook -/

def Opened (listed : List Points) : Prop := ∃ q ∈ listed, lexical q = nothing

def Inside (listed : List Points) (path : Points) : Prop :=
  ∃ q ∈ listed, lexical q ≠ nothing ∧ (lexical path).Below (lexical q)

theorem exists_apart {listed : List Points} {path : Points} {open_ : Prop} :
    (∃ q ∈ listed, if lexical q = nothing then open_ else (lexical path).Below (lexical q)) ↔
      Opened listed ∧ open_ ∨ Inside listed path := by
  constructor
  · rintro ⟨q, mem, holds⟩
    split at holds
    · next empty => exact .inl ⟨⟨q, mem, empty⟩, holds⟩
    · next some_ => exact .inr ⟨q, mem, some_, holds⟩
  · rintro (⟨⟨q, mem, empty⟩, holds⟩ | ⟨q, mem, some_, below⟩)
    · exact ⟨q, mem, by rwa [if_pos empty]⟩
    · exact ⟨q, mem, by rwa [if_neg some_]⟩

theorem contained_iff (listed : List Points) (path : Points) :
    Contained listed path ↔
      Opened listed ∧ (lexical path).absolute = false ∨ Inside listed path := by
  rw [← exists_apart]
  refine exists_congr fun q => and_congr_right fun _ => ?_
  split
  · next empty =>
    rw [empty]
    exact and_iff_left List.nil_prefix
  · rfl

theorem hasPrefix_iff (listed : List Points) (path : Points) :
    hasPrefix (normalizePath path) (listed.map normalizePath) = true ↔
      Opened listed ∧ ((lexical path).absolute = true ∨ lexical path = nothing) ∨
        Inside listed path := by
  rw [← exists_apart, hasPrefix, List.any_map, List.any_eq_true]
  refine exists_congr fun q => and_congr_right fun _ => ?_
  rw [Function.comp, normalizePath_eq, normalizePath_eq]
  exact admits_iff (lexical_proper path) (lexical_proper q)

/-- A prefix that normalises to nothing admits every absolute path, and nothing that is relative;
so the test is containment where no such prefix is listed, where the path is nothing too, and where
another prefix contains the path. -/
theorem hasPrefix_contained_iff (listed : List Points) (path : Points) :
    (hasPrefix (normalizePath path) (listed.map normalizePath) = true ↔ Contained listed path) ↔
      (Opened listed → lexical path = nothing ∨ Inside listed path) := by
  have relative : lexical path = nothing → (lexical path).absolute = false := fun same => same ▸ rfl
  rw [hasPrefix_iff, contained_iff]
  cases rooted : (lexical path).absolute with
  | true =>
    have some_ : lexical path ≠ nothing := fun same => by simp [relative same] at rooted
    simp only [some_, true_or, and_true, Bool.true_eq_false, and_false, false_or]
    tauto
  | false =>
    simp only [Bool.false_eq_true, false_or, and_true]
    tauto

def listed : Value → List Points
  | .arr items => items.filterMap text?
  | _ => []

theorem requirePrefixList_ok {param : String} {value : Value} {prefixes : List Points}
    (read : requirePrefixList param value = .ok prefixes) : prefixes = listed value := by
  unfold requirePrefixList at read
  split at read
  · cases read
    rfl
  · split at read
    · cases read
      rfl
    · cases read
  · cases read

/-- The hook confines a tool to the listed places, component by component, on all paths but those
that a prefix which normalises to nothing takes in or leaves out. -/
theorem path_scope_confines_iff {writable readable : Value} {hook : Tool → Points → Decision}
    (made : makePathScopeHookV2 writable readable = .ok hook) {tool : Tool} {value : Value}
    (held : tool.choose writable readable = some value) (path : Points) :
    ((hook tool path = .allow ↔ Contained (listed value) path) ∧
      (path.head? = some slash → normalizePath (normalizePath path) = normalizePath path)) ↔
    (Opened (listed value) → lexical path = nothing ∨ Inside (listed value) path) := by
  have idempotent : normalizePath (normalizePath path) = normalizePath path := by
    rw [normalizePath_eq path, normalizePath_eq, lexical_text (lexical_proper path)]
  have asked : hook tool path = .allow ↔
      hasPrefix (normalizePath path) ((listed value).map normalizePath) = true := by
    unfold makePathScopeHookV2 at made
    cases first : requirePrefixList "writable" writable with
    | error e => simp [first, bind, Except.bind] at made
    | ok w =>
      cases second : requirePrefixList "readable" readable with
      | error e => simp [first, second, bind, Except.bind] at made
      | ok r =>
        simp only [first, second, bind, Except.bind, pure, Except.pure] at made
        cases made
        have prefixes : tool.choose (w.map normalizePath) (r.map normalizePath) =
            some ((listed value).map normalizePath) := by
          rw [requirePrefixList_ok first, requirePrefixList_ok second]
          cases tool <;> cases held <;> rfl
        rw [scopeHook, prefixes]
        simp only
        split <;> simp [*]
  rw [asked, and_iff_left fun _ => idempotent]
  exact hasPrefix_contained_iff _ _

/-- An empty prefix stands for nothing, and admits what is below the root. -/
theorem empty_prefix_admits_all : ∃ hook : Tool → Points → Decision,
    makePathScopeHookV2 (.arr [.str []]) .null = .ok hook ∧
      hook .write (points ['/', 'd']) = .allow ∧ ¬ Contained [[]] (points ['/', 'd']) := by
  refine ⟨_, rfl, by decide, ?_⟩
  rintro ⟨q, mem, below⟩
  rw [List.mem_singleton.mp mem] at below
  exact absurd below (by decide)

theorem path_scope_confines_data : ∃ hook : Tool → Points → Decision,
    makePathScopeHookV2 (.arr [.str (points ['/', 'd'])]) .null = .ok hook ∧
      ∀ path, hook .write path = .allow ↔ Contained [points ['/', 'd']] path := by
  refine ⟨_, rfl, fun path => ?_⟩
  refine ((@path_scope_confines_iff (.arr [.str (points ['/', 'd'])]) .null _ rfl .write _ rfl
    path).mpr ?_).1
  rintro ⟨q, mem, empty⟩
  rw [List.mem_singleton.mp mem] at empty
  exact absurd empty (by decide)

end Casa.PathScope
