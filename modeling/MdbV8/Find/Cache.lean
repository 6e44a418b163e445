import MdbV8.Functions.FuncInfo
import MdbV8.Lib.Avl
import MdbV8.Objects.Properties

/-!
# The cache of `::findjsobjects`

What a scan of memory has found is kept: the objects in groups with the same signature, with an
object of each group as its representative, and the closures in groups with the same
`SharedFunctionInfo`. A group is a node of a search tree and of a linked list, to which every
instance after the first is added.

The trees are those of `libavl`, which is not part of the module, and so they are a parameter
(`FindLib`), as is `qsort`. Nodes are never freed while they are in a tree. Pointers to them are
therefore positions in the list of the nodes in the order in which they were made (`nodes`,
`funcNodes`). The linked lists `fjs_objects` and `fjs_funcs` are lists of pointers.
-/

namespace MdbV8

/-! ### Nodes -/

/-- `findjsobjects_prop_t`, as far as the comparison of objects goes, and what else it looks at. -/
structure FindSignature where
  malformed : Bool := false
  props : List (List UInt8) := []
  nprops : ℕ := 0
  constructor : List UInt8 := []
  deriving DecidableEq, Repr, Inhabited

/-- `findjsobjects_obj_t`. The first of the instances is the representative; the others follow, the
last one that was added in front. Their number is an `int`. -/
structure FindObj extends FindSignature where
  propinfo : ℕ := 0
  instances : List ℕ
  ninstances : ℤ := 1
  deriving DecidableEq, Repr, Inhabited

/-- `findjsobjects_func_t`. The number of the instances is an `int`. -/
structure FindFunc where
  shared : ℕ
  funcname : List UInt8
  scriptname : List UInt8
  /-- Empty until it is needed. -/
  location : List UInt8 := []
  instances : List ℕ
  ninstances : ℤ := 1
  deriving DecidableEq, Repr, Inhabited

/-- `findjsobjects_alloc`. -/
def findjsobjectsAlloc (addr : ℕ) : FindObj := { instances := [addr] }

/-- An instance put behind the first one. -/
def addInstance (addr : ℕ) : List ℕ → List ℕ
  | [] => [addr]
  | head :: rest => head :: addr :: rest

@[simp] theorem addInstance_perm (addr : ℕ) (instances : List ℕ) :
    (addInstance addr instances).Perm (addr :: instances) := by
  cases instances with
  | nil => exact .refl _
  | cons head rest => exact .swap _ _ _

/-- An instance added to the group of an object. -/
def FindObj.addInstance (addr : ℕ) (obj : FindObj) : FindObj :=
  { obj with
    instances := MdbV8.addInstance addr obj.instances
    ninstances := incrInt obj.ninstances }

/-- An instance added to the group of a function. -/
def FindFunc.addInstance (addr : ℕ) (func : FindFunc) : FindFunc :=
  { func with
    instances := MdbV8.addInstance addr func.instances
    ninstances := incrInt func.ninstances }

@[simp] theorem FindObj.addInstance_toFindSignature (addr : ℕ) (obj : FindObj) :
    (obj.addInstance addr).toFindSignature = obj.toFindSignature := rfl

/-! ### Comparisons -/

/-- `strcmp`. -/
def strcmp (l r : List UInt8) : Ordering := compare l r

/-- The loop of `findjsobjects_cmp` over the properties. -/
def cmpProps : List (List UInt8) → List (List UInt8) → Ordering
  | lprop :: lprops, rprop :: rprops =>
    match strcmp lprop rprop with
    | .eq => cmpProps lprops rprops
    | rv => rv
  | _ :: _, [] => .gt
  | [], _ :: _ => .lt
  | [], [] => .eq

/-- `findjsobjects_cmp`. -/
def findjsobjectsCmp (lhs rhs : FindSignature) : Ordering :=
  if lhs.malformed ≠ rhs.malformed then (if lhs.malformed then .lt else .gt)
  else
    match cmpProps lhs.props rhs.props with
    | .eq =>
      if lhs.nprops > rhs.nprops then .gt
      else if lhs.nprops < rhs.nprops then .lt
      else strcmp lhs.constructor rhs.constructor
    | rv => rv

/-- `findjsobjects_cmp_funcinfo`. The difference of two addresses is converted to an `int`, so that
this is not an order. -/
def findjsobjectsCmpFuncinfo (c : Config) (lhs rhs : ℕ) : Ordering :=
  compare (toInt32 (c.wrap ((lhs : ℤ) - rhs))) 0

/-- `findjsobjects_cmp_referents`. -/
def findjsobjectsCmpReferents (lhs rhs : ℕ) : Ordering := compare lhs rhs

/-- `findjsobjects_cmp_ninstances`. -/
def findjsobjectsCmpNinstances (c : Config) (lhs rhs : FindObj) : Ordering :=
  let lprod := c.wrap (lhs.ninstances * lhs.nprops)
  let rprod := c.wrap (rhs.ninstances * rhs.nprops)
  (compare lprod rprod).then
    ((compare lhs.ninstances rhs.ninstances).then (compare lhs.nprops rhs.nprops))

theorem cmpProps_eq_compare (l r : List (List UInt8)) : cmpProps l r = compare l r := by
  fun_induction cmpProps l r with
  | case1 lprop lprops rprop rprops heq ih =>
    rw [ih, List.compare_cons_cons, show compare lprop rprop = .eq from heq]
    rfl
  | case2 lprop lprops rprop rprops hne =>
    rw [List.compare_cons_cons]
    change strcmp lprop rprop = (strcmp lprop rprop).then _
    cases h : strcmp lprop rprop with
    | eq => exact absurd h hne
    | lt => rfl
    | gt => rfl
  | case3 => rfl
  | case4 => rfl
  | case5 => rfl

/-- The comparison of objects is a lexicographic one. -/
theorem findjsobjectsCmp_eq_compareLex :
    findjsobjectsCmp = compareLex (compareOn fun o => !o.malformed)
      (compareLex (compareOn FindSignature.props)
        (compareLex (compareOn FindSignature.nprops) (compareOn FindSignature.constructor))) := by
  funext ⟨lmalformed, lprops, lnprops, lcons⟩ ⟨rmalformed, rprops, rnprops, rcons⟩
  have hnprops : compare lnprops rnprops =
      if lnprops > rnprops then .gt else if lnprops < rnprops then .lt else .eq := by
    rw [Nat.compare_eq_ite_lt]
    grind
  unfold findjsobjectsCmp compareLex compareOn
  dsimp only
  rw [← cmpProps_eq_compare, hnprops]
  -- the names decide, or the number of properties does
  cases cmpProps lprops rprops with
  | eq =>
    have hlast : (if lnprops > rnprops then Ordering.gt else if lnprops < rnprops then .lt
          else strcmp lcons rcons) =
        (if lnprops > rnprops then Ordering.gt else if lnprops < rnprops then .lt else .eq).then
          (compare lcons rcons) := by
      split
      · rfl
      · split <;> rfl
    cases lmalformed <;> cases rmalformed <;> first | rfl | exact hlast
  | lt => cases lmalformed <;> cases rmalformed <;> rfl
  | gt => cases lmalformed <;> cases rmalformed <;> rfl

instance : Std.TransCmp findjsobjectsCmp := by
  rw [findjsobjectsCmp_eq_compareLex]
  infer_instance

instance : Std.TransCmp findjsobjectsCmpReferents := inferInstanceAs (Std.TransCmp (compare (α := ℕ)))

/-- Objects are in one group if they agree in everything that is compared. -/
theorem findjsobjectsCmp_eq_iff {lhs rhs : FindSignature} :
    findjsobjectsCmp lhs rhs = .eq ↔ lhs = rhs := by
  obtain ⟨lmalformed, lprops, lnprops, lcons⟩ := lhs
  obtain ⟨rmalformed, rprops, rnprops, rcons⟩ := rhs
  rw [findjsobjectsCmp_eq_compareLex]
  simp [compareLex_eq_eq, compareOn]

/-! ### The cache -/

/-- `libavl`, with the three kinds of trees it is used for, and `qsort`. -/
structure FindLib (c : Config) where
  objs : Lib.Avl FindSignature ℕ findjsobjectsCmp
  funcs : Lib.Avl ℕ ℕ (findjsobjectsCmpFuncinfo c)
  referents : Lib.Avl ℕ ℕ findjsobjectsCmpReferents
  qsort : ∀ {α : Type}, (α → α → Ordering) → List α → List α
  qsort_perm : ∀ {α : Type} (cmp : α → α → Ordering) (xs : List α), (qsort cmp xs).Perm xs
  qsort_sorted : ∀ {α : Type} (cmp : α → α → Ordering) (xs : List α), Std.TransCmp cmp →
    (qsort cmp xs).Pairwise fun x y => cmp x y ≠ .gt

/-- Trees that are lists, and a sort by insertion, for the examples of this development. -/
def FindLib.lists (c : Config) : FindLib c where
  objs := .list _
  funcs := .list _
  referents := .list _
  qsort cmp xs := xs.insertionSort fun x y => cmp x y ≠ .gt
  qsort_perm cmp xs := List.perm_insertionSort _ xs
  qsort_sorted cmp xs hcmp := by
    have htotal : Std.Total fun x y => cmp x y ≠ .gt :=
      ⟨fun x y => by
        have hswap : cmp y x = (cmp x y).swap := Std.OrientedCmp.eq_swap
        rw [hswap]
        cases cmp x y <;> simp⟩
    have htrans : IsTrans _ fun x y => cmp x y ≠ .gt :=
      ⟨fun x y z hxy hyz => by
        rw [ne_eq, ← Ordering.isLE_iff_ne_gt] at hxy hyz ⊢
        exact Std.TransCmp.isLE_trans hxy hyz⟩
    exact List.pairwise_insertionSort _ xs

/-- What a scan has found. -/
structure FindCache {c : Config} (L : FindLib c) where
  /-- `fjs_tree`. -/
  tree : L.objs.Tree
  nodes : List FindObj
  /-- `fjs_objects`. -/
  objects : List ℕ
  /-- `fjs_funcinfo`. -/
  funcinfo : L.funcs.Tree
  funcNodes : List FindFunc
  /-- `fjs_funcs`. -/
  funcs : List ℕ

namespace FindCache

variable {c : Config} {L : FindLib c}

/-- The cache before the first scan. -/
def empty : FindCache L where
  tree := L.objs.create
  nodes := []
  objects := []
  funcinfo := L.funcs.create
  funcNodes := []
  funcs := []

/-- The group that a pointer refers to. -/
def node (cache : FindCache L) (p : ℕ) : FindObj := cache.nodes.getD p default

/-- The groups in the order of `fjs_objects`. -/
def groups (cache : FindCache L) : List FindObj := cache.objects.map cache.node

/-- The functions in the order of `fjs_funcs`. -/
def functions (cache : FindCache L) : List FindFunc :=
  cache.funcs.map (cache.funcNodes.getD · default)

/-- Adding an object, which is a new group unless there is one with its signature. It says whether
it is new. -/
def enterObj (cache : FindCache L) (current : FindObj) (addr : ℕ) : Bool × FindCache L :=
  match L.objs.find cache.tree current.toFindSignature with
  | none =>
    (true, { cache with
      tree := L.objs.add cache.tree current.toFindSignature cache.nodes.length
      nodes := cache.nodes ++ [current]
      objects := cache.nodes.length :: cache.objects })
  | some obj => (false, { cache with nodes := cache.nodes.modify obj (·.addInstance addr) })

/-- Adding a closure, in the same way. -/
def enterFunc (cache : FindCache L) (func : FindFunc) (addr : ℕ) : Bool × FindCache L :=
  match L.funcs.find cache.funcinfo func.shared with
  | none =>
    (true, { cache with
      funcinfo := L.funcs.add cache.funcinfo func.shared cache.funcNodes.length
      funcNodes := cache.funcNodes ++ [func]
      funcs := cache.funcNodes.length :: cache.funcs })
  | some ofunc =>
    (false, { cache with funcNodes := cache.funcNodes.modify ofunc (·.addInstance addr) })

/-- A closure does nothing to the objects. -/
theorem enterFunc_tree (cache : FindCache L) (func : FindFunc) (addr : ℕ) :
    (cache.enterFunc func addr).2.tree = cache.tree := by
  unfold enterFunc
  split <;> rfl

/-- The sort that ends a scan. -/
def sort (cache : FindCache L) : FindCache L :=
  if L.objs.isEmpty cache.tree then cache
  else
    { cache with
      objects := L.qsort (fun p q => findjsobjectsCmpNinstances c (cache.node p) (cache.node q))
        cache.objects }

end FindCache

end MdbV8
