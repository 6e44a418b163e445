import MdbV8.Output.OutBuf
import MdbV8.Target.Heap

/-!
# JavaScript strings

`mdb_v8_string.c`. V8 represents a string in one of four ways: as a *sequential* string, whose
characters follow the header; as the concatenation of two strings; as a slice of a sequential
string; or outside the heap. `v8stringLoad` reads the header of a string and `v8stringWrite` writes
its characters into a string buffer, following the representation.

The characters of a sequential string are read in chunks. Before each character is written,
`v8stringWriteSizecheck` decides whether the rest of the string will fit, and if it will not, whether
there is still room for the marker that says that the string has been cut off.

A concatenation is written by recursion. The depth of the recursion is counted in the low bits of
the flags and bounded by `jsstrMaxdepth`; the bound `fuel` on the recursion here is larger, and
running out of it counts as a failed assertion.
-/

namespace MdbV8

/-! ### Flags -/

/-- `JSSTR_NONE`, which is also `JSSTR_NUDE`. -/
def jsstrNone : ℕ := 0

/-- `JSSTR_VERBOSE`. -/
def jsstrVerbose : ℕ := 0x10000

/-- `JSSTR_QUOTED`. -/
def jsstrQuoted : ℕ := 0x20000

/-- `JSSTR_ISASCII`. -/
def jsstrIsascii : ℕ := 0x40000

/-- `JSSTR_MAXDEPTH`. -/
def jsstrMaxdepth : ℕ := 512

/-- `JSSTR_DEPTH`. -/
def jsstrDepth (f : ℕ) : ℕ := f &&& 0xffff

/-- `JSSTR_BUMPDEPTH`. -/
def jsstrBumpdepth (f : ℕ) : ℕ := f + 1

/-- `f & ~m`, of an `enum`. -/
def clearFlag (f m : ℕ) : ℕ := f &&& (0xffffffff ^^^ m)

/-! ### Loading a string -/

/-- `v8string_t`. Of the last fields, those are set that the representation has. -/
structure V8String where
  addr : ℕ
  len : ℕ
  type : ℕ
  consP1 : ℕ := 0
  consP2 : ℕ := 0
  slicedParent : ℕ := 0
  slicedOffset : ℕ := 0
  externalNodedata : ℕ := 0
  deriving DecidableEq, Repr

/-- `v8string_load`. -/
def v8stringLoad (t : Target) (addr : ℕ) : Option V8String :=
  let c := t.cfg
  match t.readTypebyte addr with
  | none => none
  | some type =>
    if !c.typeString type then none
    else if !c.strrepSeq type && !c.strrepCons type && !c.strrepExt type && !c.strrepSliced type
    then none
    else
      match t.readHeapSmi addr c.offStringLength with
      | none => none
      | some len =>
        if c.strrepCons type then
          match t.readHeapPtr addr c.offConsstringFirst,
            t.readHeapPtr addr c.offConsstringSecond with
          | some consP1, some consP2 => some { addr, len, type, consP1, consP2 }
          | _, _ => none
        else if c.strrepSliced type then
          match t.readHeapPtr addr c.offSlicedstringParent,
            t.readHeapSmi addr c.offSlicedstringOffset with
          | some slicedParent, some slicedOffset =>
            some { addr, len, type, slicedParent, slicedOffset }
          | _, _ => none
        else if c.strrepExt type then
          match t.readHeapPtr addr c.offExternalstringResource with
          | none => none
          | some data =>
            -- `NODE_OFF_EXTSTR_DATA` is the size of a pointer
            match t.readHeapPtr data c.ptrSize with
            | none => none
            | some externalNodedata => some { addr, len, type, externalNodedata }
        else some { addr, len, type }

/-! ### Writing a sequential string -/

/-- `v8s_truncate_marker`. -/
def v8sTruncateMarker : List UInt8 := bytesOf "[...]"

/-- `v8s_truncate_marker_bytes`. -/
def v8sTruncateMarkerBytes : ℕ := 5

/-- The size of the buffer that a chunk of a string is read into. -/
def chunkSize : ℕ := 8192

/-- `v8string_write_t`. -/
structure V8StringWrite where
  v8flags : ℕ
  charsp : ℕ
  readoff : ℕ
  inbytesperchar : ℕ
  nreadchars : ℕ := 0
  slicelen : ℕ
  strb : Strbuf
  strflags : ℕ
  /-- The bytes read into the chunk buffer. -/
  chunk : List UInt8 := []
  chunksz : ℕ := chunkSize
  chunki : ℕ := 0
  chunklast : Bool := false
  done : Bool
  asciicheck : Bool

/-- `v8string_sizecheck_t`. -/
inductive V8StringSizecheck where
  | dontknow
  | willfit
  | wontfit
  | nodanger
  deriving DecidableEq, Repr

namespace V8StringWrite

/-- The string is a one-byte string. -/
def ascii (w : V8StringWrite) : Bool := w.v8flags &&& jsstrIsascii != 0

/-- The character at index `i` of the chunk: a sign-extended byte, or two bytes. -/
def chrval (w : V8StringWrite) (i : ℕ) : ℕ :=
  if w.ascii then charToUint16 (w.chunk.getD i 0)
  else (w.chunk.getD i 0).toNat + 256 * (w.chunk.getD (i + 1) 0).toNat

/-- An assertion has failed: nothing more is written. -/
def trap (w : V8StringWrite) : V8StringWrite :=
  { w with strb := { w.strb with mem := w.strb.mem.trap }, done := true }

end V8StringWrite

/-- The loop of `v8string_write_sizecheck` over the rest of the chunk. It returns `i`, `noutbytes`
and `firstcharbytes`. -/
def v8stringWriteSizecheckLoop (w : V8StringWrite) : ℕ → ℕ → ℕ → ℕ → ℕ → ℕ × ℕ × ℕ
  | 0, i, noutbytes, _, firstcharbytes => (i, noutbytes, firstcharbytes)
  | fuel + 1, i, noutbytes, nreadchars, firstcharbytes =>
    if i < w.chunksz ∧ w.nreadchars + nreadchars < w.slicelen then
      let noutbytes := noutbytes + mdbv8StrbufNbytesforchar (w.chrval i) w.strflags
      let firstcharbytes := if i = w.chunki then noutbytes else firstcharbytes
      v8stringWriteSizecheckLoop w fuel (i + w.inbytesperchar) noutbytes (nreadchars + 1)
        firstcharbytes
    else (i, noutbytes, firstcharbytes)

/-- `v8string_write_sizecheck`, or nothing if one of its assertions fails. -/
def v8stringWriteSizecheck (bits : ℕ) (w : V8StringWrite) : Option V8StringSizecheck :=
  let maxoutbytesperchar := 2
  let outbytesleft := mdbv8StrbufBytesleft bits w.strb
  if outbytesleft > maxoutbytesperchar ∧
      outbytesleft - maxoutbytesperchar ≥ v8sTruncateMarkerBytes then some .nodanger
  else if ¬ (w.chunki < w.chunksz ∧ w.nreadchars < w.slicelen) then none
  else
    let (i, noutbytes, firstcharbytes) := v8stringWriteSizecheckLoop w w.chunksz w.chunki 0 0 0
    if outbytesleft > v8sTruncateMarkerBytes ∧
        firstcharbytes ≤ outbytesleft - v8sTruncateMarkerBytes then some .nodanger
    else if noutbytes > outbytesleft then some .wontfit
    else if i = w.chunksz ∧ !w.chunklast then some .dontknow
    else some .willfit

/-- Writing one character, in the loop of `v8string_write_seq_chunk`. -/
def v8stringWriteChar (w : V8StringWrite) : V8StringWrite :=
  if !w.ascii && w.chunki % 2 != 0 then w.trap
  else
    { w with
      readoff := w.readoff + w.inbytesperchar
      strb := mdbv8StrbufAppendc w.strb (w.chrval w.chunki) w.strflags
      nreadchars := w.nreadchars + 1
      chunki := w.chunki + w.inbytesperchar }

/-- The loop of `v8string_write_seq_chunk` over the characters of the chunk. It says whether the
function returns from inside the loop. -/
def v8stringWriteSeqChunkLoop (bits nbytestoread : ℕ) : ℕ → V8StringWrite → Bool × V8StringWrite
  | 0, w => (false, w)
  | fuel + 1, w =>
    if w.nreadchars < w.slicelen ∧ w.chunki < nbytestoread then
      match v8stringWriteSizecheck bits w with
      | none => (true, w.trap)
      | some .wontfit =>
        (true, { w with
          strb := mdbv8StrbufAppends w.strb v8sTruncateMarker w.strflags, done := true })
      | some .dontknow => (true, if w.chunki = 0 then w.trap else w)
      | some .willfit | some .nodanger =>
        v8stringWriteSeqChunkLoop bits nbytestoread fuel (v8stringWriteChar w)
    else (false, w)

/-- `v8string_write_seq_chunk`. The length of a string is an SMI, so that the bytes of its
characters can be counted in a `size_t`. -/
def v8stringWriteSeqChunk (t : Target) (w : V8StringWrite) : ℤ × V8StringWrite :=
  let inbytesleft := w.inbytesperchar * (w.slicelen - w.nreadchars)
  let nbytestoread := if w.chunksz < inbytesleft then w.chunksz else inbytesleft
  let w := { w with chunklast := !(w.chunksz < inbytesleft) }
  match t.mdbVread nbytestoread (t.cfg.add w.charsp w.readoff) with
  | none =>
    (0, { w with
      strb := mdbv8StrbufSprintf w.strb (bytesOf "<string (failed to read data)>"), done := true })
  | some chunk =>
    let w := { w with chunk }
    let firstchar : UInt8 := w.chunk.getD 0 0
    if w.asciicheck && (firstchar != 0 && !isascii firstchar.toNat) then
      (0, { w with
        strb := mdbv8StrbufSprintf w.strb (bytesOf "<string (contents looks invalid)>"),
        done := true })
    else
      let (returned, w) := v8stringWriteSeqChunkLoop t.cfg.bits nbytestoread w.slicelen
        { w with asciicheck := false, chunki := 0 }
      if returned then (0, w)
      else if ¬ w.nreadchars ≤ w.slicelen then (0, w.trap)
      else if w.nreadchars = w.slicelen then (0, { w with done := true })
      else (0, w)

/-- The loop of `v8string_write_seq` and `v8string_write_ext` over the chunks. Each chunk writes at
least one character, so as many chunks as there are characters are enough. -/
def v8stringWriteChunks (t : Target) : ℕ → V8StringWrite → ℤ × Strbuf
  | 0, w => (0, if w.done then w.strb else w.trap.strb)
  | fuel + 1, w =>
    if w.done then (0, w.strb)
    else
      let (err, w) := v8stringWriteSeqChunk t w
      if err ≠ 0 then (err, w.strb) else v8stringWriteChunks t fuel w

/-- `v8string_write_seq`. -/
def v8stringWriteSeq (t : Target) (strp : V8String) (strb : Strbuf) (strflags v8flags : ℕ)
    (usliceoffset : ℕ) (uslicelen : ℤ) : ℤ × Strbuf :=
  let nstrchrs := strp.len
  let sliceoffset := if usliceoffset > nstrchrs then nstrchrs else usliceoffset
  let slicelen :=
    if uslicelen = -1 then nstrchrs - sliceoffset
    else if t.cfg.wrap uslicelen > nstrchrs - sliceoffset then nstrchrs - sliceoffset
    else t.cfg.wrap uslicelen
  if ¬ (sliceoffset ≤ nstrchrs ∧ slicelen ≤ nstrchrs ∧ sliceoffset + slicelen ≤ nstrchrs) then
    (0, { strb with mem := strb.mem.trap })
  else
    let ascii := v8flags &&& jsstrIsascii != 0
    let inbytesperchar := if ascii then 1 else 2
    let charsp :=
      t.cfg.add strp.addr (if ascii then t.cfg.offSeqasciistrChars else t.cfg.offSeqtwobytestrChars)
    v8stringWriteChunks t slicelen
      { v8flags, charsp, readoff := sliceoffset * inbytesperchar, inbytesperchar, slicelen, strb,
        strflags, done := slicelen == 0, asciicheck := false }

/-! ### Writing the other representations -/

/-- `v8string_write_ext`. -/
def v8stringWriteExt (t : Target) (strp : V8String) (strb : Strbuf) (strflags v8flags : ℕ) :
    ℤ × Strbuf :=
  let strb :=
    if v8flags &&& jsstrVerbose != 0 then
      mdbv8StrbufSprintf strb (bytesOf "external string: " ++ fmtP strp.addr ++
        bytesOf " (assuming node.js string (length " ++ fmtD strp.len ++ bytesOf "))\n")
    else strb
  if v8flags &&& jsstrIsascii == 0 then
    (0, mdbv8StrbufSprintf strb (bytesOf "<external two-byte string>"))
  else
    v8stringWriteChunks t strp.len
      { v8flags, charsp := strp.externalNodedata, readoff := 0, inbytesperchar := 1,
        slicelen := strp.len, strb, strflags, done := strp.len == 0, asciicheck := true }

/-- `v8string_write_sliced`. -/
def v8stringWriteSliced (t : Target) (strp : V8String) (strb : Strbuf) (strflags v8flags : ℕ) :
    ℤ × Strbuf :=
  match v8stringLoad t strp.slicedParent with
  | none => (0, mdbv8StrbufSprintf strb (bytesOf "<sliced string (failed to load parent)>"))
  | some pstrp =>
    if !t.cfg.strrepSeq pstrp.type then
      (0, mdbv8StrbufSprintf strb
        (bytesOf "<sliced string (parent is not a sequential string)>"))
    else
      v8stringWriteSeq t pstrp strb strflags (jsstrBumpdepth v8flags) strp.slicedOffset
        (t.cfg.toSigned strp.len)

/-- `v8string_write_cons`, with the function that writes the two parts. -/
def v8stringWriteCons (write : V8String → Strbuf → ℕ → ℕ → ℤ × Strbuf) (t : Target)
    (strp : V8String) (strb : Strbuf) (strflags v8flags : ℕ) : ℤ × Strbuf :=
  match v8stringLoad t strp.consP1, v8stringLoad t strp.consP2 with
  | some str1p, some str2p =>
    let flags := jsstrBumpdepth v8flags
    let (rv, strb) := write str1p strb strflags flags
    if rv = 0 then write str2p strb strflags flags else (rv, strb)
  | _, _ => (0, mdbv8StrbufSprintf strb (bytesOf "<string (failed to read cons ptrs)>"))

/-- `v8string_write`, with at most `fuel` calls nested in each other. -/
def v8stringWriteN (t : Target) : ℕ → V8String → Strbuf → ℕ → ℕ → ℤ × Strbuf
  | 0, _, strb, _, _ => (-1, { strb with mem := strb.mem.trap })
  | fuel + 1, strp, strb, strflags, v8flags =>
    if jsstrDepth v8flags > jsstrMaxdepth then
      (-1, mdbv8StrbufSprintf strb (bytesOf "<maximum depth exceeded>"))
    else
      let type := strp.type
      let v8flags :=
        if t.cfg.strencAscii type then v8flags ||| jsstrIsascii
        else clearFlag v8flags jsstrIsascii
      let quoted := v8flags &&& jsstrQuoted != 0
      let strb :=
        if quoted then mdbv8StrbufReserve t.cfg.bits (mdbv8StrbufAppendc strb 34 strflags) 1
        else strb
      let v8flags := if quoted then clearFlag v8flags jsstrQuoted else v8flags
      let v8flags := clearFlag (jsstrBumpdepth v8flags) jsstrQuoted
      let (err, strb) :=
        if t.cfg.strrepSeq type then v8stringWriteSeq t strp strb strflags v8flags 0 (-1)
        else if t.cfg.strrepCons type then
          v8stringWriteCons (v8stringWriteN t fuel) t strp strb strflags v8flags
        else if t.cfg.strrepExt type then v8stringWriteExt t strp strb strflags v8flags
        else if !t.cfg.strrepSliced type then (0, { strb with mem := strb.mem.trap })
        else v8stringWriteSliced t strp strb strflags v8flags
      let strb :=
        if quoted then mdbv8StrbufAppendc (mdbv8StrbufReserve t.cfg.bits strb (-1)) 34 strflags
        else strb
      (err, strb)

/-- `v8string_write`. -/
def v8stringWrite (t : Target) (strp : V8String) (strb : Strbuf) (strflags v8flags : ℕ) :
    ℤ × Strbuf :=
  v8stringWriteN t (jsstrMaxdepth + 2) strp strb strflags v8flags

/-- `jsstr_print`. The flags of the string stand where those of the buffer are expected when the
string cannot be loaded. -/
def jsstrPrint (t : Target) (addr flags : ℕ) (o : OutBuf) : ℤ × OutBuf :=
  match v8stringLoad t addr with
  | none =>
    (-1, mdbv8StrbufLegacyUpdate
      (mdbv8StrbufAppends o.toStrbuf (bytesOf "<string (failed to load string)>") flags))
  | some strp =>
    let (rv, strb) := v8stringWrite t strp o.toStrbuf msfAsciionly flags
    (rv, mdbv8StrbufLegacyUpdate strb)

end MdbV8
