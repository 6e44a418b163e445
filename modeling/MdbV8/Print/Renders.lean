import MdbV8.Print.ArrayMember
import MdbV8.Print.JsHeap

/-!
# What is printed is the text

`::jsprint` prints the text of a value, if memory is laid out for a heap whose values are all shown as they
are (`dcmdJsprint_renders`). Values that refer to each other in circles end with the depth.
-/

namespace MdbV8

section Renders

variable {t : Target} {b : PropBits} (fmtY : ℤ → List UInt8)

/-! ### What is added -/

variable (t) in
/-- Printing adds a text to a buffer without end. -/
def Appends (ps ps' : List Piece) (T : List UInt8) : Prop := ∃ qs, ps' = ps ++ qs ∧ piecesText t qs = T

namespace Appends

variable {ps ps' ps'' : List Piece} {T T' : List UInt8}

theorem refl (ps : List Piece) : Appends t ps ps [] := ⟨[], (List.append_nil ps).symm, rfl⟩

theorem of_eq (h : Appends t ps ps' T) (hT : T = T') : Appends t ps ps' T' := hT ▸ h

theorem trans (h : Appends t ps ps' T) (h' : Appends t ps' ps'' T') : Appends t ps ps'' (T ++ T') := by
  obtain ⟨qs, rfl, rfl⟩ := h
  obtain ⟨qs', rfl, rfl⟩ := h'
  exact ⟨qs ++ qs', List.append_assoc .., List.flatMap_append⟩

theorem bsnprintf (ps : List Piece) (T : List UInt8) :
    Appends t ps ((pieceDevice t).bsnprintf ps T) T := ⟨[.text T], rfl, piecesText_singleton t _⟩

end Appends

/-- The addresses before a value. -/
theorem appends_printAddrs {jsop : JsobjPrint} (hmember : jsop.member = none) (w : ℕ) (ps : List Piece) :
    Appends t ps (printAddrs (pieceDevice t) (some (.addr w)) jsop ps)
      (addrsText jsop.baseaddr jsop.printaddr w) := by
  unfold printAddrs addrsText
  simp only [hmember, and_true, valueAddr]
  have hopt (p : Prop) [Decidable p] (ps : List Piece) (T : List UInt8) :
      Appends t ps (if p then (pieceDevice t).bsnprintf ps T else ps) (if p then T else []) := by
    split
    · exact .bsnprintf ..
    · exact .refl ps
  exact (hopt _ ps _).trans (hopt _ _ _)

/-- A string, without a limit on its length. -/
theorem NameAt.appends {addr : ℕ} {name : List UInt8} (h : NameAt t addr name) (flags : ℕ)
    (hflags : jsstrDepth flags = 0) (ps : List Piece) :
    let r := (pieceDevice t).jsstrPrint 0 addr flags ps
    r.1 = 0 ∧ Appends t ps r.2 (quotedText msfAsciionly (quotedFlag flags) name) := by
  obtain ⟨d, leaves, htree, hd, hflat, hascii⟩ := h
  have hmax : jsstrMaxdepth = 512 := rfl
  have hchars : charsText msfAsciionly leaves.flatten = name := by
    rw [charsText_asciionly, hflat, List.map_map]
    calc name.map (asciiByte ∘ UInt8.toNat) = name.map id :=
          List.map_congr_left fun ch hch => asciiByte_toNat (hascii ch hch).2
      _ = name := List.map_id name
  have htext := jsstrText_tree t htree (show jsstrDepth flags + 2 * d ≤ jsstrMaxdepth by omega)
  rw [hchars] at htext
  intro r
  refine ⟨congrArg Prod.fst htext, [.string 0 addr flags], rfl, ?_⟩
  rw [piecesText_singleton, Piece.toText, if_pos rfl, htext]

/-! ### The settings -/

/-- What is asked for: no member path, no limit on the length of strings, and the rest as it is. -/
structure PlainPrint (base : ℕ) (printaddr : Bool) (depth indent : ℕ) (jsop : JsobjPrint) : Prop where
  member : jsop.member = none
  maxstrlen : jsop.maxstrlen = 0
  baseaddr : jsop.baseaddr = base
  printaddr : jsop.printaddr = printaddr
  depth : jsop.depth = depth
  indent : jsop.indent = indent

namespace PlainPrint

variable {base : ℕ} {printaddr : Bool} {depth indent : ℕ} {jsop jsop' : JsobjPrint}

theorem same (h : PlainPrint base printaddr depth indent jsop) (hsame : jsop.Same jsop') :
    PlainPrint base printaddr depth indent jsop' where
  member := hsame.member.trans h.member
  maxstrlen := hsame.maxstrlen.trans h.maxstrlen
  baseaddr := hsame.baseaddr.trans h.baseaddr
  printaddr := hsame.printaddr.trans h.printaddr
  depth := hsame.depth.trans h.depth
  indent := hsame.indent.trans h.indent

/-- For the values inside. -/
theorem descend (h : PlainPrint base printaddr (depth + 1) indent jsop) (hdepth : depth + 1 < 2 ^ 64)
    (hindent : indent + 4 < 2 ^ 31) :
    PlainPrint base printaddr depth (indent + 4) jsop.descend where
  member := h.member
  maxstrlen := h.maxstrlen
  baseaddr := h.baseaddr
  printaddr := h.printaddr
  depth := by
    change (jsop.depth + (2 ^ 64 - 1)) % 2 ^ 64 = depth
    rw [h.depth]
    omega
  indent := by
    change addInt jsop.indent 4 = ((indent + 4 : ℕ) : ℤ)
    rw [h.indent, addInt_of_lt (by omega) (by omega)]
    rfl

end PlainPrint

/-! ### Values inside others -/

/-- A function prints the texts of the values inside a value. -/
def PrintsParts (t : Target) (print : PrintFn (List Piece)) (base : ℕ) (printaddr : Bool)
    (depth indent : ℕ) (parts : List ℕ) (text : ℕ → List UInt8) : Prop :=
  ∀ w ∈ parts, ∀ jsop, PlainPrint base printaddr depth indent jsop → ∀ ps,
    let r := print (some (.addr w)) jsop ps
    jsop.Same r.2.1 ∧ Appends t ps r.2.2 (text w)

section Parts

variable {print : PrintFn (List Piece)} {base : ℕ} {printaddr : Bool} {depth indent : ℕ}
  {text : ℕ → List UInt8}

/-- One property. -/
theorem appends_jsobjPrintProp (name : List UInt8) {w : ℕ}
    (hprint : PrintsParts t print base printaddr depth (indent + 4) [w] text) (hdepth : depth + 1 < 2 ^ 64)
    (hindent : indent + 4 < 2 ^ 31)
    {jsop : JsobjPrint} (hasks : PlainPrint base printaddr (depth + 1) indent jsop) (ps : List Piece) :
    let r := jsobjPrintProp (pieceDevice t) print name (some (.addr w)) (jsop, ps)
    r.2.1 = { jsop with nprops := incrInt jsop.nprops } ∧
      Appends t ps r.2.2
        ((if jsop.nprops = 0 then bytesOf "\x7b" else []) ++ propText indent (name, text w)) := by
  intro r
  refine ⟨rfl, ?_⟩
  have hblanks : addInt jsop.indent 4 = ((indent + 4 : ℕ) : ℤ) := (hasks.descend hdepth hindent).indent
  have hhead := Appends.bsnprintf (t := t) ps ((if jsop.nprops = 0 then bytesOf "\x7b" else []) ++
    bytesOf "\n" ++ fmtBlanks (addInt jsop.indent 4) ++ bytesOf "\"" ++ name ++ bytesOf "\": ")
  obtain ⟨-, hval⟩ := hprint w List.mem_cons_self jsop.descend (hasks.descend hdepth hindent) _
  have hall := (hhead.trans hval).trans (.bsnprintf _ (bytesOf ","))
  refine hall.of_eq ?_
  rw [hblanks]
  unfold propText
  simp only [List.append_assoc]

/-- The properties, after the first one. -/
theorem appends_props {props : List (List UInt8 × ℕ)} (hdepth : depth + 1 < 2 ^ 64)
    (hindent : indent + 4 < 2 ^ 31)
    (hprint : PrintsParts t print base printaddr depth (indent + 4) (props.map Prod.snd) text)
    {jsop : JsobjPrint} (hasks : PlainPrint base printaddr (depth + 1) indent jsop)
    (hpos : 0 < jsop.nprops) (hfew : jsop.nprops + props.length < 2 ^ 31) (ps : List Piece) :
    let r := props.foldl (fun s p => (jsobjPrintProp (pieceDevice t) print p.1 (some (.addr p.2)) s).2)
      (jsop, ps)
    r.1 = { jsop with nprops := jsop.nprops + props.length } ∧
      Appends t ps r.2 ((props.map fun p => (p.1, text p.2)).flatMap (propText indent)) := by
  induction props generalizing jsop ps with
  | nil => exact ⟨by simp, .refl ps⟩
  | cons p props ih =>
    obtain ⟨name, w⟩ := p
    have hfirst : PrintsParts t print base printaddr depth (indent + 4) [w] text := fun w' hw' =>
      hprint w' (List.mem_singleton.mp hw' ▸ List.mem_cons_self)
    have hrest : PrintsParts t print base printaddr depth (indent + 4) (props.map Prod.snd) text :=
      fun w' hw' => hprint w' (List.mem_cons_of_mem _ hw')
    obtain ⟨hjsop, hone⟩ := appends_jsobjPrintProp name hfirst hdepth hindent hasks ps
    rw [if_neg hpos.ne', List.nil_append] at hone
    rw [List.foldl_cons]
    -- after the first property, there is one more, and the rest follows
    generalize jsobjPrintProp (pieceDevice t) print name (some (.addr w)) (jsop, ps) = r at hjsop hone
    obtain ⟨rv, jsop', ps'⟩ := r
    rw [List.length_cons] at hfew
    rw [incrInt_of_lt hpos.le (by omega)] at hjsop
    obtain rfl : jsop' = { jsop with nprops := jsop.nprops + 1 } := hjsop
    have hasks' : PlainPrint base printaddr (depth + 1) indent { jsop with nprops := jsop.nprops + 1 } :=
      hasks.same ⟨_, _, _, _, rfl⟩
    obtain ⟨hjsop, hall⟩ := ih hrest hasks' (show 0 < jsop.nprops + 1 by omega)
      (show jsop.nprops + 1 + props.length < 2 ^ 31 by omega) ps'
    refine ⟨hjsop.trans ?_, hone.trans hall⟩
    rw [List.length_cons, Nat.cast_succ, add_assoc, add_comm (1 : ℤ)]

/-- All the properties. -/
theorem appends_allProps {props : List (List UInt8 × ℕ)} (hdepth : depth + 1 < 2 ^ 64)
    (hindent : props ≠ [] → indent + 4 < 2 ^ 31) (hfew : props.length < 2 ^ 31)
    (hprint : PrintsParts t print base printaddr depth (indent + 4) (props.map Prod.snd) text)
    {jsop : JsobjPrint} (hasks : PlainPrint base printaddr (depth + 1) indent jsop)
    (hzero : jsop.nprops = 0) (ps : List Piece) :
    let r := props.foldl (fun s p => (jsobjPrintProp (pieceDevice t) print p.1 (some (.addr p.2)) s).2)
      (jsop, ps)
    r.1 = { jsop with nprops := (props.length : ℕ) } ∧
      Appends t ps r.2 ((if props = [] then [] else bytesOf "\x7b") ++
        (props.map fun p => (p.1, text p.2)).flatMap (propText indent)) := by
  cases props with
  | nil =>
    obtain ⟨⟩ := jsop
    obtain rfl := hzero
    exact ⟨rfl, .refl ps⟩
  | cons p props =>
    obtain ⟨name, w⟩ := p
    have hfirst : PrintsParts t print base printaddr depth (indent + 4) [w] text := fun w' hw' =>
      hprint w' (List.mem_singleton.mp hw' ▸ List.mem_cons_self)
    have hrest : PrintsParts t print base printaddr depth (indent + 4) (props.map Prod.snd) text :=
      fun w' hw' => hprint w' (List.mem_cons_of_mem _ hw')
    have hindent' := hindent (List.cons_ne_nil _ _)
    obtain ⟨hjsop, hone⟩ := appends_jsobjPrintProp name hfirst hdepth hindent' hasks ps
    rw [if_pos hzero] at hone
    rw [List.foldl_cons]
    -- the first property opens the brace
    generalize jsobjPrintProp (pieceDevice t) print name (some (.addr w)) (jsop, ps) = r at hjsop hone
    obtain ⟨rv, jsop', ps'⟩ := r
    rw [List.length_cons] at hfew
    rw [incrInt_of_lt hzero.ge (by omega)] at hjsop
    obtain rfl : jsop' = { jsop with nprops := jsop.nprops + 1 } := hjsop
    have hasks' : PlainPrint base printaddr (depth + 1) indent { jsop with nprops := jsop.nprops + 1 } :=
      hasks.same ⟨_, _, _, _, rfl⟩
    obtain ⟨hjsop, hall⟩ := appends_props hdepth hindent' hrest hasks' (show 0 < jsop.nprops + 1 by omega)
      (show jsop.nprops + 1 + props.length < 2 ^ 31 by omega) ps'
    refine ⟨hjsop.trans ?_, (hone.trans hall).of_eq (List.append_assoc ..)⟩
    dsimp only
    rw [hzero, List.length_cons, Nat.cast_succ, zero_add, add_comm (1 : ℤ)]

/-- **An object**, whose properties are delivered. -/
theorem appends_jsobjPrintJsobject {addr : ℕ} {props : List (List UInt8 × ℕ)}
    (hdelivers : DeliversProps t addr props) (hdepth : depth + 1 < 2 ^ 64)
    (hindent : props ≠ [] → indent + 4 < 2 ^ 31) (hfew : props.length < 2 ^ 31)
    (hprint : PrintsParts t print base printaddr depth (indent + 4) (props.map Prod.snd) text)
    {jsop : JsobjPrint} (hasks : PlainPrint base printaddr (depth + 1) indent jsop) (ps : List Piece) :
    let r := jsobjPrintJsobject t (pieceDevice t) print addr jsop ps
    r.1 = 0 ∧ jsop.Same r.2.1 ∧
      Appends t ps r.2.2 (propsText indent (props.map fun p => (p.1, text p.2))) := by
  have hasks' : PlainPrint base printaddr (depth + 1) indent { jsop with nprops := 0 } :=
    hasks.same ⟨_, _, _, _, rfl⟩
  -- the callback never stops the iteration
  have hnever (name : List UInt8) (val : Option V8Propvalue) (s : JsobjPrint × List Piece) :
      (jsobjPrintProp (pieceDevice t) print name val s).1 = 0 := rfl
  obtain ⟨hrv, hstate⟩ := hdelivers (jsobjPrintProp (pieceDevice t) print) hnever
    ({ jsop with nprops := 0 }, ps) jsop.propinfo
  obtain ⟨hjsop, hall⟩ := appends_allProps hdepth hindent hfew hprint hasks' rfl ps
  rw [← hstate] at hjsop hall
  intro r
  have hr : r = jsobjPrintJsobject t (pieceDevice t) print addr jsop ps := rfl
  unfold jsobjPrintJsobject at hr
  rw [if_neg (by simp [hasks.member]), if_neg (by rw [hasks.depth]; omega)] at hr
  dsimp only at hr
  generalize jsobjProperties t addr (jsobjPrintProp (pieceDevice t) print) ({ jsop with nprops := 0 }, ps)
    jsop.propinfo = r' at hrv hjsop hall hr
  obtain ⟨rv, ⟨jsop', ps'⟩, propinfo⟩ := r'
  obtain rfl : rv = 0 := hrv
  obtain rfl : jsop' = { jsop with nprops := (props.length : ℕ) } := hjsop
  rw [hr]
  simp only [ne_eq, not_true_eq_false, if_false]
  refine ⟨trivial, ⟨_, _, _, _, rfl⟩, ?_⟩
  -- the brace is closed as it has been opened
  unfold propsText
  rw [← hasks.indent]
  cases props with
  | nil =>
    exact (hall.trans (.bsnprintf _ (bytesOf "\x7b"))).trans (.bsnprintf _ (bytesOf "\x7d"))
  | cons p props =>
    rw [if_pos (by rw [List.length_cons]; omega)]
    exact (hall.trans (.bsnprintf _ _)).trans (.bsnprintf _ _)

/-- **An object** where the depth is used up. -/
theorem appends_jsobjPrintJsobject_zero {addr : ℕ} {jsop : JsobjPrint}
    (hasks : PlainPrint base printaddr 0 indent jsop) (ps : List Piece) :
    jsobjPrintJsobject t (pieceDevice t) print addr jsop ps =
      (0, jsop, (pieceDevice t).bsnprintf ps (bytesOf "[...]")) := by
  unfold jsobjPrintJsobject
  rw [hasks.member, if_neg (by simp), if_pos hasks.depth]

/-- The only element. -/
theorem jsobjPrintJsarrayOne_alone {ap : V8Array} (hlen : v8arrayLength ap = 1) (index w : ℕ)
    (jsop : JsobjPrint) (ps : List Piece) :
    jsobjPrintJsarrayOne (pieceDevice t) print ap index w (jsop, ps) =
      (0, (print (some (.addr w)) jsop ps).2) := by
  unfold jsobjPrintJsarrayOne
  dsimp only
  rw [if_pos hlen]

/-- One element, if there are several. -/
theorem jsobjPrintJsarrayOne_several {ap : V8Array} (hlen : v8arrayLength ap ≠ 1) (index w : ℕ)
    (jsop : JsobjPrint) (ps : List Piece) :
    jsobjPrintJsarrayOne (pieceDevice t) print ap index w (jsop, ps) =
      let r := print (some (.addr w)) jsop ((pieceDevice t).bsnprintf ps (fmtBlanks jsop.indent))
      (0, r.2.1, (pieceDevice t).bsnprintf r.2.2 (bytesOf ",\n")) := by
  unfold jsobjPrintJsarrayOne
  dsimp only
  rw [if_neg hlen, if_neg (show ¬ (pieceDevice t).full ps = true from Bool.false_ne_true)]

/-- The elements of an array, if there are several. -/
theorem appends_elements {ap : V8Array} (hlen : v8arrayLength ap ≠ 1) {words : List ℕ}
    (hprint : PrintsParts t print base printaddr depth (indent + 4) words text) (index : ℕ)
    {jsop : JsobjPrint} (hasks : PlainPrint base printaddr depth (indent + 4) jsop) (ps : List Piece) :
    let r := visitWhile (jsobjPrintJsarrayOne (pieceDevice t) print ap) index words (jsop, ps)
    Appends t ps r.2.2 ((words.map text).flatMap (eltText indent)) := by
  induction words generalizing index jsop ps with
  | nil => exact .refl ps
  | cons w words ih =>
    have hblanks := Appends.bsnprintf (t := t) ps (fmtBlanks jsop.indent)
    obtain ⟨hsame, hval⟩ := hprint w List.mem_cons_self jsop hasks _
    have hone := (hblanks.trans hval).trans (.bsnprintf _ (bytesOf ",\n"))
    have hparts : PrintsParts t print base printaddr depth (indent + 4) words text := fun w' hw' =>
      hprint w' (List.mem_cons_of_mem _ hw')
    rw [visitWhile, jsobjPrintJsarrayOne_several hlen]
    refine (hone.trans (ih hparts (index + 1) (hasks.same hsame) _)).of_eq ?_
    rw [List.map_cons, List.flatMap_cons, hasks.indent]
    rfl

/-- The words of an array whose pages are all read. -/
theorem ArrayAt.arrayWords_eq {addr : ℕ} {elts : List ℕ} (h : ArrayAt t addr elts)
    (hlegible : (JsValue.array elts).Legible t addr) :
    ∃ ap, v8arrayLoad t addr = some ap ∧ ap.length = elts.length ∧ arrayWords t ap = elts := by
  obtain ⟨ap, hload, hlen, helts⟩ := h
  refine ⟨ap, hload, hlen, ?_⟩
  by_cases hnil : elts = []
  · unfold arrayWords
    rw [hlen, hnil, List.length_nil]
    split
    · rfl
    · exact List.take_zero
  · obtain ⟨arrayp, bs, harrayp, hread, htake⟩ := helts hnil
    have hcount : elts.length ≤ iteratedCount (arrayp.nelts % 2 ^ 32) := hlegible ap arrayp hload harrayp
    unfold arrayWords
    rw [harrayp]
    dsimp only
    rw [hlen, fixedarrayWords_of_readable hread, List.take_take, min_eq_left hcount, ← htake]

/-- **An array**, whose pages are all read. -/
theorem appends_jsobjPrintJsarray {addr : ℕ} {elts : List ℕ} (h : ArrayAt t addr elts)
    (hlegible : (JsValue.array elts).Legible t addr) (hdepth : depth + 1 < 2 ^ 64)
    (hindent : elts ≠ [] → indent + 4 < 2 ^ 31)
    (hprint : PrintsParts t print base printaddr depth (indent + 4) elts text)
    {jsop : JsobjPrint} (hasks : PlainPrint base printaddr (depth + 1) indent jsop) (ps : List Piece) :
    let r := jsobjPrintJsarray t (pieceDevice t) print addr jsop ps
    r.1 = 0 ∧ jsop.Same r.2.1 ∧ Appends t ps r.2.2 (eltsText indent (elts.map text)) := by
  obtain ⟨ap, hload, hlen, hwords⟩ := h.arrayWords_eq hlegible
  have hdescend (hne : elts ≠ []) := hasks.descend hdepth (hindent hne)
  have hlength : v8arrayLength ap = elts.length := hlen
  intro r
  have hr : r = jsobjPrintJsarray t (pieceDevice t) print addr jsop ps := rfl
  unfold jsobjPrintJsarray at hr
  rw [if_neg (by simp [hasks.member]), if_neg (by rw [hasks.depth]; omega), hload] at hr
  simp only [v8arrayIterElements_eq_visitWhile, hwords, hlength] at hr
  rw [hr]
  match elts with
  | [] => exact ⟨rfl, .refl jsop, .bsnprintf ..⟩
  | [w] =>
    -- a single element is printed on the same line
    obtain ⟨-, hval⟩ := hprint w List.mem_cons_self jsop.descend
      (hdescend (List.cons_ne_nil _ _))
      ((pieceDevice t).bsnprintf ps (bytesOf "[ "))
    have hall := ((Appends.bsnprintf ps (bytesOf "[ ")).trans hval).trans (.bsnprintf _ (bytesOf " ]"))
    rw [List.length_singleton] at hlength ⊢
    rw [if_neg Nat.one_ne_zero, if_pos rfl, visitWhile, jsobjPrintJsarrayOne_alone hlength]
    exact ⟨rfl, .refl jsop, hall⟩
  | w :: w' :: ws =>
    -- more of them have a line each
    have hlen' : v8arrayLength ap ≠ 1 := by
      rw [hlength, List.length_cons, List.length_cons]
      omega
    have hval := appends_elements hlen' hprint 0 (hdescend (List.cons_ne_nil _ _))
      ((pieceDevice t).bsnprintf ps (bytesOf "[\n"))
    have hall := ((Appends.bsnprintf ps (bytesOf "[\n")).trans hval).trans
      ((Appends.bsnprintf _ (fmtBlanks jsop.indent)).trans (.bsnprintf _ (bytesOf "]")))
    rw [if_neg (by simp), if_neg (hlength ▸ hlen')]
    refine ⟨rfl, .refl jsop, hall.of_eq ?_⟩
    simp only [eltsText, List.map_cons, List.append_assoc, hasks.indent]

/-- **An array** where the depth is used up. -/
theorem appends_jsobjPrintJsarray_zero {addr : ℕ} {jsop : JsobjPrint}
    (hasks : PlainPrint base printaddr 0 indent jsop) (ps : List Piece) :
    jsobjPrintJsarray t (pieceDevice t) print addr jsop ps =
      (0, jsop, (pieceDevice t).bsnprintf ps (bytesOf "[...]")) := by
  unfold jsobjPrintJsarray
  rw [hasks.member, if_neg (by simp), if_pos hasks.depth]

end Parts

/-! ### Any value -/

variable (hprops : t.cfg.V8Props b)

include hprops

/-- The word of an integer. -/
theorem appends_int {v : ℤ} (hint : t.cfg.IsSmiInt v) (hshown : t.cfg.model = .lp64 ∨ 0 ≤ v)
    (print : PrintFn (List Piece)) (jsop : JsobjPrint) (ps : List Piece) :
    let r := jsobjPrintWord t fmtY (pieceDevice t) print (t.cfg.smiWord v) jsop ps
    r.1 = 0 ∧ jsop.Same r.2.1 ∧ Appends t ps r.2.2 (fmtInt v) := by
  unfold jsobjPrintWord
  rw [if_pos (isSmi_smiWord hprops.smis v), fmtD, toInt32_smiValue hprops.smis hint hshown]
  exact ⟨rfl, .refl jsop, .bsnprintf ..⟩

/-- A string, between quotes. -/
theorem appends_string {w : ℕ} {s : List UInt8} (hheap : t.cfg.isHeapobject w = true) (h : NameAt t w s)
    (print : PrintFn (List Piece)) {jsop : JsobjPrint} (hmax : jsop.maxstrlen = 0) (ps : List Piece) :
    let r := jsobjPrintWord t fmtY (pieceDevice t) print w jsop ps
    r.1 = 0 ∧ jsop.Same r.2.1 ∧ Appends t ps r.2.2 (bytesOf "\"" ++ s ++ bytesOf "\"") := by
  obtain ⟨type, htype, hstring⟩ := h.exists_type
  obtain ⟨hrv, happends⟩ := h.appends jsstrQuoted rfl ps
  unfold jsobjPrintWord jsobjPrintHeapobject
  rw [hprops.toV8Tags.isSmi_eq_false hheap, if_neg Bool.false_ne_true, hheap, htype]
  simp only [Bool.not_true, Bool.false_eq_true, if_false, hstring, if_true, hmax]
  exact ⟨hrv, .refl jsop, happends⟩

/-- **A value** is printed with what is inside it, whose texts are printed in the same way. -/
theorem appends_jsobjPrintWord {w : ℕ} {v : JsValue} (h : ValueAt t b w v) (hlegible : v.Legible t w)
    {print : PrintFn (List Piece)} {base : ℕ} {printaddr : Bool} {depth indent : ℕ}
    (hdepth : depth < 2 ^ 64) {part : Option (ℕ → List UInt8)}
    (hpart : depth = 0 ∧ part = none ∨ ∃ d text, depth = d + 1 ∧ part = some text ∧
      (v.parts ≠ [] → indent + 4 < 2 ^ 31) ∧ PrintsParts t print base printaddr d (indent + 4) v.parts text)
    {jsop : JsobjPrint} (hasks : PlainPrint base printaddr depth indent jsop) (ps : List Piece) :
    let r := jsobjPrintWord t fmtY (pieceDevice t) print w jsop ps
    r.1 = 0 ∧ jsop.Same r.2.1 ∧ Appends t ps r.2.2 (v.text indent part) := by
  have hdescended : jsop.Same { jsop with descended := true } := ⟨_, _, _, _, rfl⟩
  have hasks' := hasks.same hdescended
  cases v with
  | int v =>
    obtain ⟨hint, rfl⟩ := h
    exact appends_int fmtY hprops hint hlegible print jsop ps
  | number bits =>
    obtain ⟨hklass, hread⟩ := h
    rw [jsobjPrintWord_klass fmtY (pieceDevice t) print hklass rfl, jsobjPrintNumber, hread]
    exact ⟨rfl, hdescended, .bsnprintf ..⟩
  | string s => exact appends_string fmtY hprops h.1 h.2 print hasks.maxstrlen ps
  | oddball name =>
    obtain ⟨hklass, strptr, hptr, hname⟩ := h
    obtain ⟨hrv, happends⟩ := hname.appends jsstrNone rfl ps
    rw [jsobjPrintWord_klass fmtY (pieceDevice t) print hklass rfl, jsobjPrintOddball, hptr]
    exact ⟨hrv, hdescended, happends⟩
  | object o =>
    -- at depth zero, an object is printed as `[...]`
    obtain ⟨hklass, hstored⟩ := h
    rw [jsobjPrintWord_klass fmtY (pieceDevice t) print hklass rfl]
    rcases hpart with ⟨rfl, rfl⟩ | ⟨d, text, rfl, rfl, hindent, hprint⟩
    · rw [appends_jsobjPrintJsobject_zero hasks']
      exact ⟨rfl, hdescended, .bsnprintf ..⟩
    · obtain ⟨hrv, hsame, happends⟩ := appends_jsobjPrintJsobject
        ((deliversProps_iff hprops hstored).mpr ⟨hlegible.1, hlegible.2.1⟩) hdepth
        (fun hne => hindent (by simpa [JsValue.parts] using hne)) hlegible.2.2 hprint hasks' ps
      exact ⟨hrv, hdescended.trans hsame, happends⟩
  | array elts =>
    -- and so is an array
    obtain ⟨hklass, harray⟩ := h
    rw [jsobjPrintWord_klass fmtY (pieceDevice t) print hklass rfl]
    rcases hpart with ⟨rfl, rfl⟩ | ⟨d, text, rfl, rfl, hindent, hprint⟩
    · rw [appends_jsobjPrintJsarray_zero hasks']
      exact ⟨rfl, hdescended, .bsnprintf ..⟩
    · obtain ⟨hrv, hsame, happends⟩ := appends_jsobjPrintJsarray harray hlegible hdepth hindent
        hprint hasks' ps
      exact ⟨hrv, hdescended.trans hsame, happends⟩

/-- **Any value of a heap** is printed as its text. The induction is on the depth. -/
theorem appends_jsobjPrintValue {H : JsHeap} (hstored : H.StoredIn t b) (hlegible : H.Legible t)
    {base : ℕ} {printaddr : Bool} {depth : ℕ} (hdepth : depth < 2 ^ 64) {fuel : ℕ} (hfuel : depth < fuel)
    {w : ℕ} {v : JsValue} (hw : H w = some v) {indent : ℕ} (hindents : H.Indents depth indent w)
    {jsop : JsobjPrint} (hasks : PlainPrint base printaddr depth indent jsop) (ps : List Piece) :
    let r := jsobjPrintValue t fmtY (pieceDevice t) fuel (some (.addr w)) jsop ps
    r.1 = 0 ∧ jsop.Same r.2.1 ∧
      Appends t ps r.2.2 (H.text (addrsText base printaddr) depth indent w) := by
  induction depth generalizing fuel w v indent jsop ps with
  | zero =>
    obtain ⟨fuel, rfl⟩ := Nat.exists_eq_add_of_lt hfuel
    have haddrs := appends_printAddrs (t := t) hasks.member w ps
    rw [hasks.baseaddr, hasks.printaddr] at haddrs
    obtain ⟨hrv, hsame, happends⟩ := appends_jsobjPrintWord fmtY hprops (hstored.stored w v hw)
      (hlegible w v hw) hdepth (.inl ⟨rfl, rfl⟩) hasks (printAddrs (pieceDevice t) (some (.addr w)) jsop ps)
    refine ⟨hrv, hsame, (haddrs.trans happends).of_eq ?_⟩
    rw [JsHeap.text, hw, Option.elim_some]
  | succ depth ih =>
    obtain ⟨fuel, rfl⟩ := Nat.exists_eq_add_of_lt hfuel
    have haddrs := appends_printAddrs (t := t) hasks.member w ps
    rw [hasks.baseaddr, hasks.printaddr] at haddrs
    -- the values inside of it are printed by the induction hypothesis
    have hparts : PrintsParts t (jsobjPrintValue t fmtY (pieceDevice t) (depth + 1 + fuel)) base printaddr
        depth (indent + 4) v.parts (H.text (addrsText base printaddr) depth (indent + 4)) := by
      intro w' hw' jsop' hasks' ps'
      obtain ⟨v', hv'⟩ := hstored.closed w v hw w' hw'
      exact (ih (by omega) (by omega) hv' (hindents v hw w' hw').2 hasks' ps').2
    -- there are some, so that the indentation grows
    have hindent : v.parts ≠ [] → indent + 4 < 2 ^ 31 := by
      intro hne
      obtain ⟨w', hw'⟩ := List.exists_mem_of_ne_nil _ hne
      exact (hindents v hw w' hw').1
    obtain ⟨hrv, hsame, happends⟩ := appends_jsobjPrintWord fmtY hprops (hstored.stored w v hw)
      (hlegible w v hw) hdepth (.inr ⟨depth, _, rfl, rfl, hindent, hparts⟩) hasks
      (printAddrs (pieceDevice t) (some (.addr w)) jsop ps)
    refine ⟨hrv, hsame, (haddrs.trans happends).of_eq ?_⟩
    rw [JsHeap.text, hw, Option.elim_some]

end Renders

/-! ### There is no NUL -/

section NoNul

variable {t : Target} {b : PropBits}

theorem noNul_append {T U : List UInt8} (hT : 0 ∉ T) (hU : 0 ∉ U) : 0 ∉ T ++ U := fun h =>
  (List.mem_append.mp h).elim hT hU

/-- There is none among digits. -/
theorem noNul_fmtNat {base : ℕ} (hone : 1 < base) (hbase : base ≤ 16) (n : ℕ) : 0 ∉ fmtNat base n := by
  have hdigit : ∀ m < 16, (UInt8.ofNat m.digitChar.toNat) ≠ 0 := by decide
  have hall : ∀ c ∈ Nat.toDigits base n, UInt8.ofNat c.toNat ≠ 0 := by
    induction n using Nat.strong_induction_on with
    | _ n ih =>
      intro c hc
      rw [Nat.toDigits_eq_if hone] at hc
      split at hc
      · next hn =>
        rw [List.mem_singleton.mp hc]
        exact hdigit n (by omega)
      · next hn =>
        rcases List.mem_append.mp hc with hc | hc
        · exact ih (n / base) (Nat.div_lt_self (by omega) hone) c hc
        · rw [List.mem_singleton.mp hc]
          exact hdigit _ ((Nat.mod_lt _ (by omega)).trans_le hbase)
  intro hmem
  obtain ⟨c, hc, hzero⟩ := List.mem_map.mp hmem
  exact hall c hc hzero

theorem noNul_fmtInt (x : ℤ) : 0 ∉ fmtInt x := by
  have hdigits := noNul_fmtNat (by decide : 1 < 10) (by decide) x.natAbs
  unfold fmtInt
  split
  · exact fun h => (List.mem_cons.mp h).elim (by decide) hdigits
  · exact hdigits

theorem noNul_fmtBlanks (width : ℤ) : 0 ∉ fmtBlanks width := fun h =>
  absurd (List.eq_of_mem_replicate h) (by decide)

theorem noNul_doubleText (d : CDouble) : 0 ∉ doubleText d := by
  unfold doubleText
  split
  · exact noNul_fmtInt _
  · have hten (n : ℕ) : 0 ∉ fmtNat 10 n := noNul_fmtNat (by decide) (by decide) n
    have hsign (p : Prop) [Decidable p] : (0 : UInt8) ∉ if p then [45] else [] := by
      split <;> decide
    have hzeros (k : ℕ) : (0 : UInt8) ∉ List.replicate k 48 := fun h =>
      absurd (List.eq_of_mem_replicate h) (by decide)
    have hexp (k : ℤ) : 0 ∉ CDouble.fmtExp k := by
      unfold CDouble.fmtExp
      refine noNul_append (by split <;> decide) ?_
      split
      · exact fun h => (List.mem_cons.mp h).elim (by decide) (hten _)
      · exact hten _
    cases d with
    | nan => exact (by decide : 0 ∉ bytesOf "nan")
    | inf neg => cases neg <;> exact of_decide_eq_true rfl
    | finite num exp =>
      unfold CDouble.fmtE
      exact noNul_append (noNul_append (noNul_append (noNul_append (noNul_append (noNul_append
        (hsign _) (hten _)) (by decide)) (hzeros _)) (hten _)) (by decide)) (hexp _)

theorem NameAt.noNul {addr : ℕ} {name : List UInt8} (h : NameAt t addr name) : 0 ∉ name := by
  obtain ⟨d, leaves, -, -, -, hascii⟩ := h
  exact fun hmem => (hascii 0 hmem).1 rfl

/-- The names in a dictionary. -/
theorem DictAt.names {addr : ℕ} {entries : List DictEntry} (h : DictAt t addr entries) :
    ∀ p ∈ entries.filterMap DictEntry.prop?, 0 ∉ p.1 := by
  obtain ⟨start, size, dict, -, -, -, -, -, -, hentries⟩ := h
  intro p hp
  obtain ⟨entry, hentry, hprop⟩ := List.mem_filterMap.mp hp
  obtain ⟨j, hj, rfl⟩ := List.mem_iff_getElem.mp hentry
  have hat := hentries j entries[j] (List.getElem?_eq_getElem hj)
  cases hcase : entries[j] with
  | empty => rw [hcase] at hprop; cases hprop
  | deleted => rw [hcase] at hprop; cases hprop
  | prop key value =>
    rw [hcase] at hprop hat
    obtain rfl := Option.some.inj hprop
    cases key with
    | index n => exact noNul_fmtInt n
    | name s => exact hat.1.2.1.noNul

/-- The names of the numeric properties. -/
theorem ElementsAt.names {addr map : ℕ} {elements : Elements} (h : ElementsAt t addr map elements) :
    ∀ p ∈ elements.props, 0 ∉ p.1 := by
  obtain ⟨ptr, arr, bitField2, -, -, -, -, hkind⟩ := h
  intro p hp
  cases elements with
  | fast elts =>
    obtain ⟨e, -, rfl⟩ := List.mem_map.mp hp
    exact noNul_fmtInt (e.2 : ℕ)
  | holey elts =>
    obtain ⟨e, -, hprop⟩ := List.mem_filterMap.mp hp
    obtain ⟨w, -, rfl⟩ := Option.map_eq_some_iff.mp hprop
    exact noNul_fmtInt (e.2 : ℕ)
  | dict entries => exact hkind.2.names p hp

/-- The names in descriptors. -/
theorem DescsAt.names {descs : Target.HeapArray} {ds : List Descriptor} (h : DescsAt t b descs ds)
    {name : List UInt8} {slot : ℕ} (hmem : Descriptor.field name slot ∈ ds) : 0 ∉ name := by
  obtain ⟨j, hj, heq⟩ := List.mem_iff_getElem.mp hmem
  have hget : ds[j]? = some (.field name slot) := by rw [List.getElem?_eq_getElem hj, heq]
  cases h with
  | joint _ _ _ _ _ _ _ _ hdescs => exact ((hdescs j _ hget).name name slot rfl).1.noNul
  | separate _ _ _ _ _ _ hdescs => exact ((hdescs j _ hget).name name slot rfl).1.noNul

/-- The names of an object. -/
theorem StoredObject.names {addr : ℕ} {o : JsObject} (h : StoredObject t b addr o) :
    ∀ p ∈ o.props, 0 ∉ p.1 := by
  obtain ⟨ptr, map, type, -, -, -, -, helements, hnamed⟩ := h.props
  intro p hp
  rcases List.mem_append.mp hp with hp | hp
  · exact helements.names p hp
  · cases hcase : o.named with
    | dict entries =>
      rw [hcase] at hp hnamed
      exact hnamed.2.names p hp
    | fast ds inobject properties =>
      rw [hcase] at hp hnamed
      obtain ⟨-, -, -, -, ⟨descsAddr, descs, -, -, hds⟩, -⟩ := hnamed
      obtain ⟨desc, hdesc, hprop⟩ := List.mem_filterMap.mp hp
      cases desc with
      | other => cases hprop
      | field name slot =>
        obtain ⟨w, -, rfl⟩ := Option.map_eq_some_iff.mp hprop
        exact hds.names hdesc

theorem noNul_flatMap {α : Type} {xs : List α} {f : α → List UInt8} (h : ∀ x ∈ xs, 0 ∉ f x) :
    0 ∉ xs.flatMap f := by
  intro hmem
  obtain ⟨x, hx, hzero⟩ := List.mem_flatMap.mp hmem
  exact h x hx hzero

theorem noNul_propsText {indent : ℕ} {props : List (List UInt8 × List UInt8)}
    (h : ∀ p ∈ props, 0 ∉ p.1 ∧ 0 ∉ p.2) : 0 ∉ propsText indent props := by
  have hline : ∀ p ∈ props, 0 ∉ propText indent p := by
    intro p hp
    obtain ⟨hname, hval⟩ := h p hp
    exact noNul_append (noNul_append (noNul_append (noNul_append (noNul_append (noNul_append (by decide)
      (noNul_fmtBlanks _)) (by decide)) hname) (by decide)) hval) (by decide)
  unfold propsText
  refine noNul_append (noNul_append (noNul_append (by decide) (noNul_flatMap hline)) ?_) (by decide)
  split
  · exact List.not_mem_nil
  · exact noNul_append (by decide) (noNul_fmtBlanks _)

theorem noNul_eltsText {indent : ℕ} {elts : List (List UInt8)} (h : ∀ elt ∈ elts, 0 ∉ elt) :
    0 ∉ eltsText indent elts := by
  unfold eltsText
  split
  · decide
  · next elt => exact noNul_append (noNul_append (by decide) (h elt List.mem_cons_self)) (by decide)
  · have hline : ∀ elt ∈ elts, 0 ∉ eltText indent elt := fun elt helt =>
      noNul_append (noNul_append (noNul_fmtBlanks _) (h elt helt)) (by decide)
    exact noNul_append (noNul_append (noNul_append (by decide) (noNul_flatMap hline))
      (noNul_fmtBlanks _)) (by decide)

theorem noNul_addrsText (base : ℕ) (printaddr : Bool) (w : ℕ) : 0 ∉ addrsText base printaddr w := by
  have haddr (w : ℕ) : 0 ∉ fmtP w ++ bytesOf ": " :=
    noNul_append (noNul_fmtNat (by decide) le_rfl w) (by decide)
  unfold addrsText
  refine noNul_append ?_ ?_
  · split
    · exact haddr base
    · exact List.not_mem_nil
  · split
    · exact haddr w
    · exact List.not_mem_nil

/-- There is none in the text of a value, if there is none in those of the values inside it. -/
theorem ValueAt.noNul {w : ℕ} {v : JsValue} (h : ValueAt t b w v) {indent : ℕ}
    {part : Option (ℕ → List UInt8)} (hpart : ∀ text ∈ part, ∀ w' ∈ v.parts, 0 ∉ text w') :
    0 ∉ v.text indent part := by
  cases v with
  | int v => exact noNul_fmtInt v
  | number bits => exact noNul_doubleText _
  | string s => exact noNul_append (noNul_append (by decide) h.2.noNul) (by decide)
  | oddball name =>
    obtain ⟨-, strptr, -, hname⟩ := h
    exact hname.noNul
  | object o =>
    -- what is inside of it has none, or is not printed
    cases part with
    | none => exact (by decide : 0 ∉ bytesOf "[...]")
    | some text =>
      refine noNul_propsText fun p hp => ?_
      obtain ⟨p', hp', rfl⟩ := List.mem_map.mp hp
      exact ⟨h.2.names p' hp', hpart text rfl p'.2 (List.mem_map_of_mem hp')⟩
  | array elts =>
    cases part with
    | none => exact (by decide : 0 ∉ bytesOf "[...]")
    | some text =>
      refine noNul_eltsText fun elt helt => ?_
      obtain ⟨w', hw', rfl⟩ := List.mem_map.mp helt
      exact hpart text rfl w' hw'

/-- **There is no NUL in the text of a value.** -/
theorem JsHeap.StoredIn.noNul {H : JsHeap} (hstored : H.StoredIn t b) (base : ℕ) (printaddr : Bool)
    (depth indent w : ℕ) : 0 ∉ H.text (addrsText base printaddr) depth indent w := by
  induction depth generalizing indent w with
  | zero =>
    refine noNul_append (noNul_addrsText base printaddr w) ?_
    cases hw : H w with
    | none => exact List.not_mem_nil
    | some v => exact (hstored.stored w v hw).noNul nofun
  | succ depth ih =>
    refine noNul_append (noNul_addrsText base printaddr w) ?_
    cases hw : H w with
    | none => exact List.not_mem_nil
    | some v =>
      refine (hstored.stored w v hw).noNul fun text htext w' _ => ?_
      rw [← Option.some.inj htext]
      exact ih (indent + 4) w'

end NoNul

/-! ### The command -/

section Command

variable {t : Target} {b : PropBits} {fmtY : ℤ → List UInt8} {zalloc : Allocator} {before : UInt8}

/-- **The loop ends** with a buffer that is large enough, if it gets one. What is missing from the first
buffer has been used up before. -/
theorem jsprintLoop_ends {addr : ℕ} {jsop : JsobjPrint} (hmax : jsop.maxstrlen = 0)
    (hzalloc : ∀ n, 0 < n → n < 2 ^ t.cfg.bits → zalloc.gives n = true) {used : ℕ}
    (hroom : used + (unboundedText t fmtY addr jsop).length + outputSlack < 2 ^ (t.cfg.bits - 1))
    {fuel k len : ℕ} (hk : k < t.cfg.bits) (hfuel : t.cfg.bits ≤ k + fuel) (hlen : len ≤ 2 ^ k)
    (hused : 2 ^ k ≤ len + used) {jsop' : JsobjPrint} (hsame : jsop.Same jsop') :
    ∃ rv last out k', jsprintLoop t fmtY zalloc addr fuel (2 ^ k) len jsop' = some (rv, last, out, 2 ^ k') ∧
      k ≤ k' ∧ k' < t.cfg.bits ∧ out.len ≤ 2 ^ k' ∧
      2 ^ k' ≤ out.len + (used + (unboundedText t fmtY addr jsop).length + outputSlack) := by
  induction fuel generalizing k len jsop' with
  | zero => omega
  | succ fuel ih =>
    have hlt : 2 ^ k < 2 ^ t.cfg.bits := Nat.pow_lt_pow_right (by decide) hk
    have hpos : 0 < 2 ^ k := Nat.two_pow_pos k
    obtain ⟨-, hnext, hemitted⟩ := same_jsobjPrint fmtY addr hsame hmax (fun _ => 0) (hlen.trans hlt.le)
    -- the buffer is too small for the text, or all of it has been written
    have hshort : len ≤ (unboundedText t fmtY addr jsop).length + outputSlack ∨
        (OutBuf.fresh (fun _ => 0) len).room =
          (jsobjPrint t fmtY (bufDevice t) addr jsop' (OutBuf.fresh (fun _ => 0) len)).2.2.room +
            (unboundedText t fmtY addr jsop).length := by
      by_cases hfits : (unboundedText t fmtY addr jsop).length + outputSlack < len
      · exact .inr (hemitted.emits.of_fits (Nat.le_sub_one_of_lt hfits)).2.symm
      · exact .inl (Nat.not_lt.mp hfits)
    have hfresh : (OutBuf.fresh (fun _ => 0) len).room = len - 1 := rfl
    have hslack : outputSlack = 6 := rfl
    rw [jsprintLoop, if_neg (by simp [hzalloc _ hpos hlt])]
    -- the loop looks at what is left of the buffer
    generalize jsobjPrint t fmtY (bufDevice t) addr jsop' (OutBuf.fresh (fun _ => 0) len) = r
      at hnext hemitted hshort
    obtain ⟨rv, j, o⟩ := r
    have hle : o.len ≤ len := hemitted.len_le
    have hleft : o.room = o.len - 1 := rfl
    dsimp only at hnext hshort ⊢
    split
    · exact ⟨rv, j, o, k, rfl, le_rfl, hk, by omega, by omega⟩
    · -- the text was too long, and the next size is still one that a word can hold
      have hk' : k + 1 < t.cfg.bits := by
        by_contra hge
        have hle : 2 ^ (t.cfg.bits - 1) ≤ 2 ^ k := Nat.pow_le_pow_right (by decide) (by omega)
        omega
      -- it is twice as large
      have hshift : 2 ^ k <<< 1 % 2 ^ t.cfg.bits = 2 ^ (k + 1) := by
        rw [Nat.shiftLeft_eq, ← Nat.pow_add,
          Nat.mod_eq_of_lt (Nat.pow_lt_pow_right (by decide) hk')]
      rw [hshift]
      obtain ⟨rv, last, out, k', hloop, hkk', hrest⟩ :=
        ih hk' (by omega) le_rfl (Nat.le_add_right _ _) (hsame.trans hnext)
      exact ⟨rv, last, out, k', hloop, by omega, hrest⟩

/-- An object or an array. -/
def JsValue.IsContainer : JsValue → Prop
  | .object _ => True
  | .array _ => True
  | _ => False

/-- **`::jsprint` prints the text of a value.** Memory is laid out for a heap whose values are shown as they
are, the indentation is always an `int`, and there is enough memory for the text. -/
theorem dcmdJsprint_renders (hprops : t.cfg.V8Props b) {H : JsHeap} (hstored : H.StoredIn t b)
    (hlegible : H.Legible t) {addr : ℕ} {v : JsValue} (hv : H addr = some v) (hcontainer : v.IsContainer)
    {opts : JsprintOpts} (hlimit : opts.strlenOverride = 0) (hdepth : opts.depth < 2 ^ 64)
    (hindents : H.Indents opts.depth 0 addr)
    (hzalloc : ∀ n, 0 < n → n < 2 ^ t.cfg.bits → zalloc.gives n = true) :
    let T := H.text (addrsText (if opts.optB then addr else 0) opts.printaddr) opts.depth 0 addr
    T.length + outputSlack < 2 ^ (t.cfg.bits - 1) →
      dcmdJsprint t fmtY zalloc before addr opts [] = (.ok, T ++ bytesOf "\n") := by
  intro T hroom
  have hmax : (jsprintStart t addr opts).jsop.maxstrlen = 0 := by
    rw [jsprintStart, hlimit]
    exact t.cfg.wrap_natCast (x := 0) (Nat.two_pow_pos _)
  have hplain : PlainPrint (if opts.optB then addr else 0) opts.printaddr opts.depth 0
      (jsprintStart t addr opts).jsop := ⟨rfl, hmax, rfl, rfl, rfl, rfl⟩
  have hklass : IsContainer t addr := by
    have hat := hstored.stored addr v hv
    cases v with
    | object o => exact .inl hat.1
    | array elts => exact .inr hat.1
    | _ => exact hcontainer.elim
  -- what a buffer without end gets
  have hfuel : opts.depth < ([] : List UInt8).length + opts.depth + 2 := by
    rw [List.length_nil]
    omega
  obtain ⟨hrv, -, qs, hqs, hpieces⟩ :=
    appends_jsobjPrintValue fmtY hprops hstored hlegible hdepth hfuel hv hindents hplain []
  have hunbounded : (unboundedPrint t fmtY addr (jsprintStart t addr opts).jsop).1 = 0 := hrv
  have htext : unboundedText t fmtY addr (jsprintStart t addr opts).jsop = T :=
    (congrArg (piecesText t) (hqs.trans (List.nil_append qs))).trans hpieces
  -- the loop ends
  have hbits : 18 < t.cfg.bits := by
    rcases t.cfg.model.ptrSize_cases with ⟨-, -, hbits⟩ | ⟨-, -, hbits⟩
    · rw [Config.bits, hbits]
      decide
    · rw [Config.bits, hbits]
      decide
  have hsize : 0 + (unboundedText t fmtY addr (jsprintStart t addr opts).jsop).length + outputSlack <
      2 ^ (t.cfg.bits - 1) := by rwa [Nat.zero_add, htext]
  obtain ⟨rv, last, out, k, hloop, -⟩ := jsprintLoop_ends hmax hzalloc hsize hbits
    (show t.cfg.bits ≤ 18 + (t.cfg.bits + 1) by omega) le_rfl (Nat.le_add_right _ _) (.refl _)
  obtain ⟨hsame, hrendered⟩ := rendered_jsprintLoop hmax (.refl _) le_rfl
    (Nat.pow_lt_pow_right (by decide) hbits).le hloop
  have hmember : last.member = none := hsame.member
  have hzero : rv = 0 := hrendered.rv_eq.trans hunbounded
  have hok : dcmdJsprint t fmtY zalloc before addr opts [] = (.ok, out.str (2 ^ k) ++ bytesOf "\n") := by
    rw [dcmdJsprint, if_pos rfl, jsprintOne]
    have hstart : jsprintLoop t fmtY zalloc addr (t.cfg.bits + 1) (jsprintStart t addr opts).bufsz
        (jsprintStart t addr opts).len (jsprintStart t addr opts).jsop = some (rv, last, out, 2 ^ k) :=
      hloop
    rw [hstart]
    dsimp only
    rw [if_neg (by simp [hzero]), if_neg (by simp [hmember])]
    simp
  have hnul : cText T = T := List.takeWhile_eq_self_iff.mpr fun ch hch => by
    have hne : ch ≠ 0 := fun h => hstored.noNul _ _ _ _ _ (h ▸ hch)
    simpa using hne
  rw [hok, dcmdJsprint_text hklass hlimit hok, htext, hnul]

end Command

/-! ### An object that refers to itself -/

/-- The object, and its other values. -/
def slotsHeap : JsHeap := fun w =>
  if w = 0x1001 then some (.object slotsObject)
  else if w = 0x500000000 then some (.int 5)
  else if w = 0x900000000 then some (.int 9)
  else none

theorem slotsHeap_cases {w : ℕ} {v : JsValue} (h : slotsHeap w = some v) :
    (w = 0x1001 ∧ v = .object slotsObject) ∨ (w = 0x500000000 ∧ v = .int 5) ∨
      (w = 0x900000000 ∧ v = .int 9) := by
  unfold slotsHeap at h
  split at h
  · next hw => exact .inl ⟨hw, (Option.some.inj h).symm⟩
  · split at h
    · next hw => exact .inr (.inl ⟨hw, (Option.some.inj h).symm⟩)
    · split at h
      · next hw => exact .inr (.inr ⟨hw, (Option.some.inj h).symm⟩)
      · cases h

theorem storedIn_slots : slotsHeap.StoredIn slotsTarget sampleBits where
  stored w v h := by
    rcases slotsHeap_cases h with ⟨rfl, rfl⟩ | ⟨rfl, rfl⟩ | ⟨rfl, rfl⟩
    · exact ⟨by decide, storedObject_slots⟩
    · exact ⟨⟨by decide, by decide⟩, by decide⟩
    · exact ⟨⟨by decide, by decide⟩, by decide⟩
  closed w v h w' hw' := by
    rcases slotsHeap_cases h with ⟨rfl, rfl⟩ | ⟨rfl, rfl⟩ | ⟨rfl, rfl⟩
    · have hparts : (JsValue.object slotsObject).parts = [0x500000000, 0x1001, 0x900000000] := by decide
      rw [hparts] at hw'
      simp only [List.mem_cons, List.not_mem_nil, or_false] at hw'
      rcases hw' with rfl | rfl | rfl
      · exact ⟨_, rfl⟩
      · exact ⟨_, rfl⟩
      · exact ⟨_, rfl⟩
    · cases hw'
    · cases hw'

theorem legible_slots : slotsHeap.Legible slotsTarget := by
  intro w v h
  rcases slotsHeap_cases h with ⟨rfl, rfl⟩ | ⟨rfl, rfl⟩ | ⟨rfl, rfl⟩
  · refine ⟨nofun, fun w hw => ?_, by decide⟩
    obtain rfl := List.mem_singleton.mp hw
    decide
  · exact .inl rfl
  · exact .inl rfl

/-- It ends where the depth is used up. -/
theorem dcmdJsprint_renders_slots :
    dcmdJsprint slotsTarget (fun _ => []) .unlimited 0 0x1001 { depth := 1 } [] =
      (.ok, bytesOf "\x7b\n    \"1\": 5,\n    \"a\": [...],\n    \"b\": 9,\n\x7d\n") :=
  (dcmdJsprint_renders Config.v8Props_sample storedIn_slots legible_slots (v := .object slotsObject) rfl
    trivial rfl (by decide) (slotsHeap.indents_of_depth (by decide) _)
    (fun _ hpos _ => bne_iff_ne.mpr hpos.ne') (by decide +kernel)).trans (by decide +kernel)

end MdbV8
