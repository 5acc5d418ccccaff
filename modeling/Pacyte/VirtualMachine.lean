/-
# The virtual machine

`VM` of `src/execution/vm.rs` with its words, its stack and its memory, and the gas meter of
`src/execution/gas.rs`.

* Positions and sizes (`usize`) are natural numbers below `2 ^ 64`; their sums are checked.
* The stack is a list with the top first.
* The machine is assumed to get the bytes that it allocates.  A memory on its own can also be
  limited to vectors of `isize::MAX` bytes (`Allocation`).
* The opcodes are those that `from_u8` can return.  The opcodes without an implementation
  cost gas and do nothing else.
* Left out are the refund counter of the gas meter and the prices that nothing reads.

`run` follows the loop for as many steps as `VM.fuel` says; `VmSteps.lean` proves that this is
always enough.
-/
import Pacyte.Crypto
import Pacyte.Limbs

/-- `ExecutionError`.  The text of a revert is the lossy UTF-8 reading of its bytes. -/
inductive ExecutionError : Type where
  | outOfGas (used limit : UInt64)
  | revert (reason : Bytes)
  | invalidOpcode (byte : UInt8)
  | stackOverflow
  | stackUnderflow
  | invalidJump
  | contractNotFound (address : Address)
  | nonceTooLow (expected actual : UInt64)
  | insufficientBalance (required available : U128)
  deriving DecidableEq, Repr

/-- `Keccak256` of the `sha3` crate. -/
class Keccak256 where
  digest : Bytes → Hash

/-! ## Words -/

abbrev Word := Vector UInt8 32

/-- `from_be_bytes`. -/
def beNat (bytes : Bytes) : ℕ := Nat.ofDigits 256 (bytes.reverse.map UInt8.toNat)

/-- `to_be_bytes`. -/
def beBytes (width n : ℕ) : Bytes := (leBytes width n).reverse

namespace Word

/-- The word whose bytes are the first 32 of a list, filled up with zeros. -/
def ofBytes (bytes : Bytes) : Word := Vector.ofFn fun i => bytes.getD i 0

/-- `word_zero`. -/
def zero : Word := zero32

/-- `word_one`. -/
def one : Word := ofBytes (List.replicate 31 0 ++ [1])

/-- The bytes from `start`, as many as a limb has. -/
def limbBytes (word : Word) (start : ℕ) : Bytes := (word.toList.drop start).take 8

/-- `word_to_u256`: the limbs, the most significant one first. -/
def toU256 (word : Word) : List ℕ :=
  [beNat (word.limbBytes 0), beNat (word.limbBytes 8), beNat (word.limbBytes 16),
    beNat (word.limbBytes 24)]

/-- `u256_to_word`. -/
def ofU256 (value : List ℕ) : Word := ofBytes (value.flatMap (beBytes 8))

/-- `word_to_usize`: the last eight bytes. -/
def toUsize (word : Word) : ℕ := beNat (word.limbBytes 24)

/-- The word of a 64-bit number. -/
def ofU64 (n : ℕ) : Word := ofBytes (List.replicate 24 0 ++ beBytes 8 n)

/-- `is_zero`. -/
def isZero (word : Word) : Bool := word.toList.all (· == 0)

/-- `add`: the loop goes from the last limb to the first. -/
def add (a b : Word) : Word :=
  ofU256 (Limbs.addCarry (2 ^ 64) a.toU256.reverse b.toU256.reverse 0).reverse

/-- `sub`: the loop goes from the last limb to the first. -/
def sub (a b : Word) : Word :=
  ofU256 (Limbs.subBorrow (2 ^ 64) a.toU256.reverse b.toU256.reverse 0).reverse

/-- The 128-bit number that `mul` and `div` read: the third limb, and the last one shifted. -/
def lowPart (word : Word) : ℕ := word.toU256.getD 2 0 ||| (word.toU256.getD 3 0) <<< 64

/-- The word that `mul` and `div` make of a 128-bit number. -/
def ofLowPart (n : ℕ) : Word := ofU256 [0, 0, n % 2 ^ 64, n / 2 ^ 64]

/-- `mul`: the product of 128-bit numbers is overflow-checked. -/
def mul {ε σ : Type} (a b : Word) : Exec ε σ Word :=
  if a.lowPart * b.lowPart < 2 ^ 128 then return ofLowPart (a.lowPart * b.lowPart)
  else Exec.abort

/-- `div`. -/
def div (a b : Word) : Word :=
  if b.isZero then zero
  else if b.lowPart = 0 then zero
  else ofLowPart (a.lowPart / b.lowPart)

/-- `lt`: the first byte that differs decides. -/
def lt (a b : Word) : Bool := Limbs.less (a.toList.map UInt8.toNat) (b.toList.map UInt8.toNat)

/-- `gt`. -/
def gt (a b : Word) : Bool := lt b a

/-- The word of a condition. -/
def ofBool (c : Bool) : Word := if c then one else zero

end Word

/-! ## Gas -/

/-- `GasMeter`. -/
structure GasMeter where
  gasLimit : UInt64
  gasUsed : UInt64
  deriving DecidableEq, Repr

namespace GasMeter

/-- `GasMeter::use_gas`. -/
def useGas {ε : Type} (amount : UInt64) : Exec ε GasMeter Bool := do
  let meter ← Exec.get
  let sum ← Exec.addU64 meter.gasUsed amount
  if meter.gasLimit < sum then
    return false
  else
    let used ← Exec.addU64 meter.gasUsed amount
    Exec.modify fun meter => { meter with gasUsed := used }
    return true

/-- `GasMeter::remaining`. -/
def remaining (meter : GasMeter) : ℕ := meter.gasLimit.toNat - meter.gasUsed.toNat

end GasMeter

/-- `GasSchedule`. -/
structure GasSchedule where
  base : UInt64
  veryLow : UInt64
  low : UInt64
  mid : UInt64
  exp : UInt64
  sha3 : UInt64
  sload : UInt64
  sstoreSet : UInt64
  balance : UInt64
  call : UInt64
  create : UInt64
  selfdestruct : UInt64
  deriving DecidableEq, Repr

/-- `GasSchedule::default`. -/
def GasSchedule.default : GasSchedule where
  base := 2
  veryLow := 3
  low := 5
  mid := 8
  exp := 10
  sha3 := 30
  sload := 2100
  sstoreSet := 20000
  balance := 100
  call := 700
  create := 32000
  selfdestruct := 5000

/-! ## Opcodes -/

/-- `Opcode`. -/
inductive Opcode : Type where
  | stop | add | mul | sub | div | sdiv | mod | smod | addMod | mulMod | exp | signExtend
  | lt | gt | slt | sgt | eq | isZero | and | or | xor | not | byte | shl | shr | sar
  | sha3
  | address | balance | origin | caller | callValue | callDataLoad | callDataSize | callDataCopy
  | codeSize | codeCopy | gasPrice | extCodeSize | extCodeCopy | retDataSize | retDataCopy
  | extCodeHash
  | blockHash | coinbase | timestamp | number | difficulty | gasLimit | chainId | selfBalance
  | baseFee
  | pop | mload | mstore | mstore8 | sload | sstore | jump | jumpI | pc | msize | gas | jumpDest
  | push1 | dup1 | swap1 | log0
  | create | call | callCode | «return» | delegateCall | create2 | staticCall | revert | invalid
  | selfDestruct
  deriving DecidableEq, Repr

namespace Opcode

/-- `Opcode::from_u8`.  The ranges are collapsed to their first member. -/
def fromU8 (byte : UInt8) : Option Opcode :=
  match byte.toNat with
  | 0x00 => some stop
  | 0x01 => some add
  | 0x02 => some mul
  | 0x03 => some sub
  | 0x04 => some div
  | 0x05 => some sdiv
  | 0x06 => some mod
  | 0x07 => some smod
  | 0x08 => some addMod
  | 0x09 => some mulMod
  | 0x0a => some exp
  | 0x0b => some signExtend
  | 0x10 => some lt
  | 0x11 => some gt
  | 0x12 => some slt
  | 0x13 => some sgt
  | 0x14 => some eq
  | 0x15 => some isZero
  | 0x16 => some and
  | 0x17 => some or
  | 0x18 => some xor
  | 0x19 => some not
  | 0x1a => some Opcode.byte
  | 0x1b => some shl
  | 0x1c => some shr
  | 0x1d => some sar
  | 0x20 => some sha3
  | 0x30 => some address
  | 0x31 => some balance
  | 0x32 => some origin
  | 0x33 => some caller
  | 0x34 => some callValue
  | 0x35 => some callDataLoad
  | 0x36 => some callDataSize
  | 0x37 => some callDataCopy
  | 0x38 => some codeSize
  | 0x39 => some codeCopy
  | 0x3a => some gasPrice
  | 0x3b => some extCodeSize
  | 0x3c => some extCodeCopy
  | 0x3d => some retDataSize
  | 0x3e => some retDataCopy
  | 0x3f => some extCodeHash
  | 0x40 => some blockHash
  | 0x41 => some coinbase
  | 0x42 => some timestamp
  | 0x43 => some number
  | 0x44 => some difficulty
  | 0x45 => some gasLimit
  | 0x46 => some chainId
  | 0x47 => some selfBalance
  | 0x48 => some baseFee
  | 0x50 => some pop
  | 0x51 => some mload
  | 0x52 => some mstore
  | 0x53 => some mstore8
  | 0x54 => some sload
  | 0x55 => some sstore
  | 0x56 => some jump
  | 0x57 => some jumpI
  | 0x58 => some pc
  | 0x59 => some msize
  | 0x5a => some gas
  | 0x5b => some jumpDest
  | 0xf0 => some create
  | 0xf1 => some call
  | 0xf2 => some callCode
  | 0xf3 => some «return»
  | 0xf4 => some delegateCall
  | 0xf5 => some create2
  | 0xfa => some staticCall
  | 0xfd => some revert
  | 0xfe => some invalid
  | 0xff => some selfDestruct
  | n =>
    if 0x60 ≤ n ∧ n ≤ 0x7f then some push1
    else if 0x80 ≤ n ∧ n ≤ 0x8f then some dup1
    else if 0x90 ≤ n ∧ n ≤ 0x9f then some swap1
    else if 0xa0 ≤ n ∧ n ≤ 0xa4 then some log0
    else none

/-- `Opcode::gas_cost`. -/
def gasCost (schedule : GasSchedule) : Opcode → UInt64
  | stop => 0
  | add | sub | mul | div | mod | lt | gt | eq | isZero | and | or | xor | not | pop | pc | msize
  | gas | address | caller | origin | callDataSize | codeSize | retDataSize => schedule.base
  | sdiv | smod | signExtend | slt | sgt | byte | shl | shr | sar => schedule.low
  | addMod | mulMod | jump | jumpI => schedule.mid
  | exp => schedule.exp
  | sha3 => schedule.sha3
  | sload => schedule.sload
  | sstore => schedule.sstoreSet
  | balance | extCodeSize | extCodeHash => schedule.balance
  | call | callCode | delegateCall | staticCall => schedule.call
  | create | create2 => schedule.create
  | selfDestruct => schedule.selfdestruct
  | mload | mstore | mstore8 => schedule.veryLow
  | jumpDest => 1
  | invalid => 0
  | «return» | revert => 0
  | _ => schedule.mid

end Opcode

/-! ## Memory -/

/-- Overflow-checked addition of positions. -/
def Exec.addUsize {ε σ : Type} (a b : ℕ) : Exec ε σ ℕ :=
  if a + b < 2 ^ 64 then pure (a + b) else abort

/-- Which vectors of bytes can be allocated: all of them, or those of up to `isize::MAX` bytes. -/
inductive Allocation : Type where
  | succeeds
  | bounded
  deriving DecidableEq, Repr

/-- A vector of this many bytes is allocated, or its capacity overflows. -/
def Exec.allocate {ε σ : Type} (size : ℕ) : Allocation → Exec ε σ Unit
  | .succeeds => pure ()
  | .bounded => if size < 2 ^ 63 then pure () else abort

namespace Memory

variable {ε σ : Type}

/-- `Memory::resize`, and the end of `Memory::read`: the bytes are only made longer. -/
def resize (allocation : Allocation) (data : Bytes) (size : ℕ) : Exec ε σ Bytes :=
  if data.length < size then do
    Exec.allocate size allocation
    return data ++ List.replicate (size - data.length) 0
  else
    return data

/-- `Memory::read` on the bytes of the memory. -/
def read (allocation : Allocation) (data : Bytes) (offset size : ℕ) : Exec ε σ Bytes :=
  if data.length ≤ offset then do
    Exec.allocate size allocation
    return List.replicate size 0
  else do
    let sum ← Exec.addUsize offset size
    let result := (data.drop offset).take (min sum data.length - offset)
    resize allocation result size

/-- `Memory::read_word`; the copy panics unless there are 32 bytes. -/
def readWord (allocation : Allocation) (data : Bytes) (offset : ℕ) : Exec ε σ Word := do
  let bytes ← read allocation data offset 32
  if bytes.length = 32 then
    return Word.ofBytes bytes
  else
    Exec.abort

/-- `Memory::write`: the memory is resized to the end of what is written. -/
def write (allocation : Allocation) (data : Bytes) (offset : ℕ) (bytes : Bytes) :
    Exec ε σ Bytes := do
  let stop ← Exec.addUsize offset bytes.length
  let data ← resize allocation data stop
  return data.take offset ++ bytes ++ data.drop stop

end Memory

/-! ## The machine -/

/-- `MAX_STACK_SIZE`. -/
def maxStackSize : ℕ := 1024

/-- `VM`. -/
structure VM where
  code : Bytes
  pc : ℕ
  stack : List Word
  memory : Bytes
  gasMeter : GasMeter
  gasSchedule : GasSchedule
  returnData : Bytes
  stopped : Bool
  deriving DecidableEq

namespace VM

/-- A program of the machine. -/
abbrev Machine (α : Type) := Exec ExecutionError VM α

/-- `VM::with_schedule`. -/
def withSchedule (code : Bytes) (gasLimit : UInt64) (schedule : GasSchedule) : VM where
  code := code
  pc := 0
  stack := []
  memory := []
  gasMeter := ⟨gasLimit, 0⟩
  gasSchedule := schedule
  returnData := []
  stopped := false

/-- `VM::new`. -/
def new (code : Bytes) (gasLimit : UInt64) : VM := withSchedule code gasLimit .default

/-- `Stack::push`. -/
def push (value : Word) : Machine Unit := do
  let vm ← Exec.get
  if maxStackSize ≤ vm.stack.length then
    Exec.throw .stackOverflow
  else
    Exec.modify fun vm => { vm with stack := value :: vm.stack }

/-- `Stack::pop`. -/
def pop : Machine Word := do
  let vm ← Exec.get
  match vm.stack with
  | [] => Exec.throw .stackUnderflow
  | value :: rest =>
    Exec.modify fun vm => { vm with stack := rest }
    return value

/-- An opcode that replaces the two top items by a word made of them. -/
def binary (f : Word → Word → Word) : Machine Unit := do
  let a ← pop
  let b ← pop
  push (f a b)

/-- An opcode that replaces the top item. -/
def unary (f : Word → Word) : Machine Unit := do
  let a ← pop
  push (f a)

/-- A position from the stack. -/
def popUsize : Machine ℕ := do
  let word ← pop
  return word.toUsize

/-- Read the memory. -/
def readMemory (offset size : ℕ) : Machine Bytes := do
  let vm ← Exec.get
  Memory.read .succeeds vm.memory offset size

/-- Write the memory. -/
def writeMemory (offset : ℕ) (bytes : Bytes) : Machine Unit := do
  let vm ← Exec.get
  let data ← Memory.write .succeeds vm.memory offset bytes
  Exec.modify fun vm => { vm with memory := data }

/-- Move to a `JUMPDEST`. -/
def jumpTo (dest : ℕ) : Machine Unit := do
  let vm ← Exec.get
  if vm.code[dest]? = some 0x5b then
    Exec.modify fun vm => { vm with pc := dest }
  else
    Exec.throw .invalidJump

variable [Keccak256]

/-- What `step` does for an opcode that was paid for. -/
def execute : Opcode → Machine Unit
  | .stop => Exec.modify fun vm => { vm with stopped := true }
  | .add => binary Word.add
  | .mul => do
    let a ← pop
    let b ← pop
    let result ← Word.mul a b
    push result
  | .sub => binary Word.sub
  | .div => binary Word.div
  | .lt => binary fun a b => Word.ofBool (Word.lt a b)
  | .gt => binary fun a b => Word.ofBool (Word.gt a b)
  | .eq => binary fun a b => Word.ofBool (a == b)
  | .isZero => unary fun a => Word.ofBool a.isZero
  | .and => binary (Vector.zipWith (· &&& ·))
  | .or => binary (Vector.zipWith (· ||| ·))
  | .xor => binary (Vector.zipWith (· ^^^ ·))
  | .not => unary (Vector.map (~~~ ·))
  | .pop => do
    let _ ← pop
    return ()
  | .mload => do
    let offset ← popUsize
    let vm ← Exec.get
    let value ← Memory.readWord .succeeds vm.memory offset
    push value
  | .mstore => do
    let offset ← popUsize
    let value ← pop
    writeMemory offset value.toList
  | .mstore8 => do
    let offset ← popUsize
    let value ← pop
    writeMemory offset [value[31]]
  | .jump => do
    let dest ← popUsize
    jumpTo dest
  | .jumpI => do
    let dest ← popUsize
    let cond ← pop
    if cond.isZero then
      return ()
    else
      jumpTo dest
  | .jumpDest => return ()
  | .pc => do
    let vm ← Exec.get
    push (Word.ofU64 vm.pc)
  | .gas => do
    let vm ← Exec.get
    push (Word.ofU64 vm.gasMeter.remaining)
  | .sha3 => do
    let offset ← popUsize
    let size ← popUsize
    let data ← readMemory offset size
    push (Keccak256.digest data)
  | .return => do
    let offset ← popUsize
    let size ← popUsize
    let data ← readMemory offset size
    Exec.modify fun vm => { vm with returnData := data }
    Exec.modify fun vm => { vm with stopped := true }
  | .revert => do
    let offset ← popUsize
    let size ← popUsize
    let reason ← readMemory offset size
    Exec.throw (.revert reason)
  | .invalid => Exec.throw (.invalidOpcode 0xfe)
  -- not implemented: only logged
  | _ => return ()

/-- Pay for an opcode. -/
def useGas (cost : UInt64) : Machine Bool :=
  Exec.onPart (·.gasMeter) (fun meter vm => { vm with gasMeter := meter }) (GasMeter.useGas cost)

/-- `VM::step`. -/
def step : Machine Unit := do
  let vm ← Exec.get
  match vm.code[vm.pc]? with
  | none => Exec.abort
  | some opcodeByte =>
    match Opcode.fromU8 opcodeByte with
    | none => Exec.throw (.invalidOpcode opcodeByte)
    | some opcode =>
      if ← useGas (opcode.gasCost vm.gasSchedule) then
        Exec.modify fun vm => { vm with pc := vm.pc + 1 }
        execute opcode
      else
        Exec.throw (.outOfGas vm.gasMeter.gasUsed vm.gasMeter.gasLimit)

/-- The loop has another step to make. -/
def Running (vm : VM) : Prop := vm.stopped = false ∧ vm.pc < vm.code.length

instance (vm : VM) : Decidable vm.Running := inferInstanceAs (Decidable (_ ∧ _))

/-- The loop of `VM::run`, at most `n` steps of it; `none` if it has more to make. -/
def loop : ℕ → Machine (Option Bytes)
  | 0 => do
    let vm ← Exec.get
    if vm.Running then return none else return some vm.returnData
  | n + 1 => do
    let vm ← Exec.get
    if vm.Running then
      step
      loop n
    else
      return some vm.returnData

/-- The code lies at a `JUMPDEST`. -/
def AtJumpDest (vm : VM) : Prop := vm.code[vm.pc]? = some 0x5b

instance (vm : VM) : Decidable vm.AtJumpDest := inferInstanceAs (Decidable (_ = _))

/-- A number that the loop cannot reach: it goes down with the gas, and between two payments
with the code that is left; a jump ends at a `JUMPDEST`, which costs gas. -/
def fuel (vm : VM) : ℕ :=
  vm.gasMeter.remaining * (vm.code.length + 2) +
    if vm.AtJumpDest then 1 else vm.code.length - vm.pc + 2

/-- `VM::run`. -/
def run : Machine Bytes := do
  let vm ← Exec.get
  match ← loop vm.fuel with
  | some data => return data
  | none => Exec.abort

/-- `VM::gas_used`. -/
def gasUsed (vm : VM) : UInt64 := vm.gasMeter.gasUsed

end VM
