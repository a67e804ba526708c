import Mathlib.Algebra.Ring.Nat
import StackMachine.Bytecode.Program
import StackMachine.Proofs.Bytecode.RoundTrip

set_option autoImplicit false

namespace StackMachine

variable {version : Version}

namespace Layout

def offset (version : Version) (code : List Instruction) (index : Nat) : Nat :=
  ((code.take index).map (·.size version)).sum

def bytes (version : Version) (code : List Instruction) : List UInt8 :=
  code.flatMap (·.bytes version)

@[simp] theorem offset_zero (code : List Instruction) : offset version code 0 = 0 := rfl

@[simp] theorem offset_cons (i : Instruction) (code : List Instruction) (index : Nat) :
    offset version (i :: code) (index + 1) = i.size version + offset version code index := by
  simp [offset]

theorem offset_succ (code : List Instruction) {index : Nat} (inside : index < code.length) :
    offset version code (index + 1) = offset version code index + code[index].size version := by
  rw [offset, List.take_succ_eq_append_getElem inside, List.map_append, List.sum_append]
  simp [offset]

theorem offset_le (code : List Instruction) (index : Nat) :
    offset version code index ≤ offset version code code.length := by
  have split := congrArg (fun code => (code.map (·.size version)).sum)
    (List.take_append_drop index code)
  simp only [List.map_append, List.sum_append] at split
  simp only [offset, List.take_length]
  omega

theorem length_bytes {code : List Instruction}
    (wellFormed : ∀ i ∈ code, i.WellFormed version) :
    (bytes version code).length = offset version code code.length := by
  induction code with
  | nil => rfl
  | cons i code ih =>
    have here := Instruction.length_bytes (wellFormed i List.mem_cons_self).supported
    have rest := ih fun j member => wellFormed j (List.mem_cons_of_mem i member)
    simp only [bytes] at rest
    simp [bytes, here, rest]

end Layout

theorem decodeAt_of_reads {i : Instruction} {body : Array UInt8} {before bytes after : List UInt8}
    (reads : Reader.Reads (Reader.instruction version) bytes i)
    (split : body.toList = before ++ (bytes ++ after)) :
    decodeAt version body before.length = .ok (i, before.length + bytes.length) := by
  have whole : body = (before ++ (bytes ++ after)).toArray := by rw [← split]
  simp only [decodeAt, whole, reads before after]

namespace Program

theorem walkFrom_of_decodeAt {program : Program} {offset next : Nat} {i : Instruction}
    (decoded : program.decodeAt offset = .ok (i, next)) :
    program.walkFrom offset = .ok (offset, i) :: program.walkFrom next := by
  have inside : offset < program.length := by
    have advances := decodeAt_advances decoded
    simp only [length]
    omega
  rw [walkFrom, if_pos inside]
  split
  next fault failed => simp [decoded] at failed
  next j stop found =>
    rw [decoded] at found
    cases found
    rfl

theorem walkFrom_length (program : Program) : program.walkFrom program.length = [] := by
  rw [walkFrom, if_neg (Nat.lt_irrefl _)]

theorem decodeAt_offset {code : List Instruction} (wellFormed : ∀ i ∈ code, i.WellFormed version)
    (after : List UInt8) {index : Nat} (inside : index < code.length) :
    let program : Program := ⟨version, (Layout.bytes version code ++ after).toArray⟩
    program.decodeAt (Layout.offset version code index) =
      .ok (code[index], Layout.offset version code (index + 1)) := by
  intro program
  have here := wellFormed code[index] (List.getElem_mem inside)
  have before : (Layout.bytes version (code.take index)).length =
      Layout.offset version code index := by
    rw [Layout.length_bytes fun i member => wellFormed i (List.mem_of_mem_take member)]
    rw [Layout.offset, List.take_length, Layout.offset]
  have split : program.body.toList = Layout.bytes version (code.take index) ++
      (code[index].bytes version ++ (Layout.bytes version (code.drop (index + 1)) ++ after)) := by
    have parts : code = code.take index ++ code[index] :: code.drop (index + 1) := by
      rw [← List.drop_eq_getElem_cons inside, List.take_append_drop]
    have whole := congrArg (Layout.bytes version) parts
    simp only [Layout.bytes, List.flatMap_append, List.flatMap_cons] at whole ⊢
    simp [program, Layout.bytes, whole]
  have decoded := decodeAt_of_reads (Reader.reads_instruction here) split
  rw [before, Instruction.length_bytes here.supported, ← Layout.offset_succ code inside] at decoded
  exact decoded

theorem walk_of_decodeAt {program : Program} {code : List Instruction}
    (decoded : ∀ (index : Nat) (inside : index < code.length),
      program.decodeAt (Layout.offset version code index) =
        .ok (code[index], Layout.offset version code (index + 1))) :
    program.walk = code.mapIdx (fun index i => .ok (Layout.offset version code index, i)) ++
      program.walkFrom (Layout.offset version code code.length) := by
  have rest (count index : Nat) (left : index + count = code.length) :
      program.walkFrom (Layout.offset version code index) =
        (code.drop index).mapIdx (fun j i => .ok (Layout.offset version code (index + j), i)) ++
          program.walkFrom (Layout.offset version code code.length) := by
    -- By the number of instructions that are left to walk over.
    induction count generalizing index with
    | zero =>
      have ended : index = code.length := left
      simp [ended]
    | succ count ih =>
      have inside : index < code.length := by omega
      rw [walkFrom_of_decodeAt (decoded index inside), ih (index + 1) (by omega),
        List.drop_eq_getElem_cons inside, List.mapIdx_cons, List.cons_append]
      simp only [Nat.add_zero, Nat.add_assoc, Nat.add_comm 1]
  have whole := rest code.length 0 (Nat.zero_add _)
  simp only [Layout.offset_zero, List.drop_zero, Nat.zero_add] at whole
  exact whole

/-- Decoding undoes encoding, on code of any length and whatever follows it. -/
theorem walk_bytes {code : List Instruction} (wellFormed : ∀ i ∈ code, i.WellFormed version)
    (after : List UInt8) :
    let program : Program := ⟨version, (Layout.bytes version code ++ after).toArray⟩
    let items := code.mapIdx fun index i => .ok (Layout.offset version code index, i)
    program.walk = items ++ program.walkFrom (Layout.offset version code code.length) ∧
      (after = [] → program.walk = items) ∧
      (∀ i ∈ code, (i.bytes version).length = i.size version) ∧
      ∀ i : Instruction, i.WellFormed .one ↔
        (∃ value, i = .push (.ofLiteral value)) ∨
          ∃ op ∈ [PlainOp.hlt, .add, .sub, .mul, .div, .out], i = .plain op := by
  intro program items
  have walked : program.walk =
      items ++ program.walkFrom (Layout.offset version code code.length) :=
    walk_of_decodeAt fun _ inside => decodeAt_offset wellFormed after inside
  refine ⟨walked, ?_, ?_, Instruction.wellFormed_one_iff⟩
  · intro nothing
    subst nothing
    have ends : Layout.offset version code code.length = program.length := by
      simp [program, length, Layout.length_bytes wellFormed]
    rw [walked, ends, walkFrom_length, List.append_nil]
  · intro i member
    exact Instruction.length_bytes (wellFormed i member).supported

theorem walk_bytes_behind_code :
    let code : List Instruction :=
      [.push ⟨some ⟨.address, 1⟩, some ⟨0x7ff0000000000001⟩, true⟩, .pop .void,
        .branch .call 0xffffffff, .plain .ret]
    let program : Program := ⟨.two, (Layout.bytes .two code ++ [0xff]).toArray⟩
    (∀ i ∈ code, i.WellFormed .two) ∧
      program.walk =
        [.ok (0, .push ⟨some ⟨.address, 1⟩, some ⟨0x7ff0000000000001⟩, true⟩),
          .ok (10, .pop .void), .ok (11, .branch .call 0xffffffff), .ok (16, .plain .ret)] ++
          program.walkFrom 17 := by
  intro code program
  have wellFormed : ∀ i ∈ code, i.WellFormed .two := by
    simp only [code, List.forall_mem_cons]
    refine ⟨⟨rfl, fun _ => ⟨.inl rfl, ?_⟩⟩, ⟨rfl, fun _ => ⟨.inl rfl, ?_⟩⟩, ⟨rfl, fun _ => trivial⟩,
      ⟨rfl, fun _ => trivial⟩, nofun⟩
    · intro r same
      cases same
      decide
    · exact nofun
  exact ⟨wellFormed, (walk_bytes wellFormed [0xff]).1⟩

end Program

end StackMachine
