import PassiFlo.Rtl.Decoder
import PassiFlo.Lib.Lanes

/-!
# Data memory

The byte-lane logic around the data RAM (`memWriteMask`, `memReadMask`), the
misalignment detector `except_E`, and the port of the RAM itself. The RAM is a
vendor block whose source is not part of the design: what the core relies on is
`AltsyncramSpec`, and `Altsyncram.clock` is one function that meets it.
-/

namespace PassiFlo

open Lanes

/-- `{{4{memWidth[2]}},{2{memWidth[1]}}, memWidth[0], 1'b1}`. -/
def byteMask (memWidth : BitVec 3) : BitVec 8 :=
  rep 4 (memWidth.getLsbD 2) ++ rep 2 (memWidth.getLsbD 1) ++ BitVec.ofBool (memWidth.getLsbD 0) ++
    1#1

/-- `(byteenable, DM_writeData_M)`. -/
def memWriteMask (select memWidth : BitVec 3) (dmWriteData : BitVec 64) : BitVec 8 × BitVec 64 :=
  (byteMask memWidth <<< select.toNat, dmWriteData <<< (select ++ 0#3 : BitVec 6).toNat)

/-- Lane selection and extension of the word read. -/
def memReadMask (dmReadData : BitVec 64) (signedRead : Bool) (memWidth memOffset : BitVec 3) :
    BitVec 64 :=
  let shifted := dmReadData >>> (memOffset ++ 0#3 : BitVec 6).toNat
  -- always read at least a byte
  let readMask : BitVec 64 := rep 32 (memWidth.getLsbD 2) ++ rep 16 (memWidth.getLsbD 1) ++
    rep 8 (memWidth.getLsbD 0) ++ 0xff#8
  let memOp := BitVec.ofBool signedRead ++ memWidth
  if memOp = 0b1011#4 then rep 32 (shifted.getLsbD 31) ++ shifted.extractLsb' 0 32
  else if memOp = 0b1001#4 then rep 48 (shifted.getLsbD 15) ++ shifted.extractLsb' 0 16
  else if memOp = 0b1000#4 then rep 56 (shifted.getLsbD 7) ++ shifted.extractLsb' 0 8
  else readMask &&& shifted

/-- `alignDetect` of `except_E`: the shifted mask spills into a ninth byte. -/
def alignDetect (offset memWidth : BitVec 3) : Bool :=
  ((byteMask memWidth).setWidth 9 <<< offset.toNat).getLsbD 8

/-- `exceptSignal` of `except_E`; bit 2 is the store, bit 0 the load. -/
def exceptE (dmAddr : BitVec 64) (memOp : BitVec 2) (memWidth : BitVec 3) : BitVec 7 :=
  let a := alignDetect (dmAddr.extractLsb' 0 3) memWidth
  0b0000#4 ++ BitVec.ofBool (a && memOp.getLsbD 1) ++ 0#1 ++ BitVec.ofBool (a && memOp.getLsbD 0)

/-! ## The RAM -/

/-- What the data RAM holds: 4096 words and its unregistered output. -/
@[ext]
structure Ram where
  words : BitVec 12 → BitVec 64
  latch : BitVec 64

/-- The input pins of the RAM. -/
structure RamPort where
  data : BitVec 64
  address : BitVec 12
  rden : Bool
  byteena : BitVec 8
  wren : Bool

/-- A clock edge and an output function that behave as the single-port RAM does. -/
structure AltsyncramSpec (clock : Ram → RamPort → Ram) (q : Ram → RamPort → BitVec 64) :
    Prop where
  /-- A write touches exactly the enabled bytes of the addressed word. -/
  writes : ∀ r p a k, k < 8 → byte ((clock r p).words a) k =
    if p.wren ∧ a = p.address ∧ p.byteena.getLsbD k then byte p.data k else byte (r.words a) k
  /-- A read latches the addressed word, as the same edge leaves it. -/
  reads : ∀ r p, p.rden = true → (clock r p).latch = (clock r p).words p.address
  /-- Without a read the output is held. -/
  holds : ∀ r p, p.rden = false → (clock r p).latch = r.latch
  /-- The output pins show the latch. -/
  output : ∀ r p, q r p = r.latch

namespace Altsyncram

/-- `{8{be[7]}}, …, {8{be[0]}}`. -/
def bitMask (be : BitVec 8) : BitVec 64 :=
  rep 8 (be.getLsbD 7) ++ rep 8 (be.getLsbD 6) ++ rep 8 (be.getLsbD 5) ++ rep 8 (be.getLsbD 4) ++
    rep 8 (be.getLsbD 3) ++ rep 8 (be.getLsbD 2) ++ rep 8 (be.getLsbD 1) ++ rep 8 (be.getLsbD 0)

/-- One clock edge of the RAM. -/
def clock (r : Ram) (p : RamPort) : Ram :=
  let words := fun a =>
    if p.wren && a == p.address then
      p.data &&& bitMask p.byteena ||| r.words a &&& ~~~bitMask p.byteena
    else r.words a
  { words := words, latch := if p.rden then words p.address else r.latch }

/-- The output pins. -/
def q (r : Ram) (_ : RamPort) : BitVec 64 := r.latch

end Altsyncram

end PassiFlo
