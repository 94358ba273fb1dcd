import Lazers.Kernel.Env
import Lazers.Lib.Records

/-!
# Reading an environment back (`env.rs`)

`write_listing_into` puts every variable on a line of its own, with `=` between key and value. A
key has no `=` in it, so the line can be cut at the first one. But neither `set` nor
`validate_key` looks for newlines, and a newline in a key or a value makes two lines of one.

`listing_decodes_iff`: an environment can be read back from its listing exactly if it has no
newline in it.
-/

namespace Lazers.Kernel

open OrderedMap

/-- A pair as bytes. -/
def pairBytes (p : String × String) : List UInt8 × List UInt8 := (strBytes p.1, strBytes p.2)

/-- Splitting a listing at newlines, and each line at its first `=`. -/
def decodeListing (bytes : List UInt8) : Option (List (List UInt8 × List UInt8)) :=
  Records.read 10 61 bytes

/-- No newline in the key and the value. -/
def Plain (p : String × String) : Prop := 10 ∉ strBytes p.1 ∧ 10 ∉ strBytes p.2

instance : DecidablePred Plain := fun _ => inferInstanceAs (Decidable (_ ∧ _))

/-- A call that sets no newline. -/
def EnvOp.Plain : EnvOp → Prop
  | .set _ key value => Kernel.Plain (key, value)
  | _ => True

theorem listing_eq_write (m : List (String × String)) :
    Environment.listing m = Records.write 10 61 (m.map pairBytes) := by
  rw [Environment.listing, Records.write, List.flatMap_map]
  rfl

/-- A listing of well-formed keys. -/
theorem decodeListing_iff {m : List (String × String)} (h : ∀ p ∈ m, 61 ∉ strBytes p.1) :
    decodeListing (Environment.listing m) = some (m.map pairBytes) ↔ ∀ p ∈ m, Plain p := by
  rw [decodeListing, listing_eq_write, Records.read_write_iff (by decide)]
  · rw [List.forall_mem_map]
    rfl
  · rw [List.forall_mem_map]
    exact h

theorem pairBytes_injective : Function.Injective pairBytes := by
  rintro ⟨key, value⟩ ⟨key', value'⟩ h
  obtain ⟨hkey, hvalue⟩ := Prod.mk.inj h
  exact Prod.ext (strBytes_inj.mp hkey) (strBytes_inj.mp hvalue)

namespace EnvRun

/-- Only `set` puts a pair into an environment. -/
theorem set_of_mem_call {run : EnvRun} {op : EnvOp} {store : Nat} {key value : String}
    (h : Event.put store key value ∈ (run.call op).1.past) :
    Event.put store key value ∈ run.past ∨ op = .set store key value := by
  cases op with
  | set store' key' value' =>
    rw [call] at h
    split at h
    · rcases List.mem_cons.mp h with h | h
      · cases h
        exact .inr rfl
      · exact .inl h
    · exact .inl h
  | remove store' key' =>
    rw [call] at h
    split at h
    · exact .inl ((List.mem_cons.mp h).resolve_left (by rintro ⟨⟩))
    · exact .inl h
  | clear store' => exact .inl ((List.mem_cons.mp h).resolve_left (by rintro ⟨⟩))
  | inheritInto store' child distinct =>
    rw [call] at h
    split at h
    · exact .inl ((List.mem_cons.mp h).resolve_left (by rintro ⟨⟩))
    · exact .inl h

theorem set_of_mem_past {ops : List EnvOp} {store : Nat} {key value : String}
    (h : Event.put store key value ∈ (exec ops).past) : .set store key value ∈ ops := by
  suffices hrun : ∀ run : EnvRun,
      Event.put store key value ∈ (ops.foldl (fun run op => (run.call op).1) run).past →
        Event.put store key value ∈ run.past ∨ .set store key value ∈ ops from
    (hrun start h).resolve_left (by rintro ⟨⟩)
  clear h
  induction ops with
  | nil => exact fun run h => .inl h
  | cons op ops ih =>
    intro run h
    rcases ih _ h with h | h
    · rcases set_of_mem_call h with h | rfl
      · exact .inl h
      · exact .inr List.mem_cons_self
    · exact .inr (List.mem_cons_of_mem _ h)

/-- **When an environment can be read back.** For every run and every buffer: a buffer that is too
small is reported; in a larger one the listing gives the pairs back exactly if none of them has a
newline in it, which is so in every run whose calls set none. Two such environments with the same
listing are the same. -/
theorem listing_decodes_iff (ops : List EnvOp) (store : Nat) (buffer : List UInt8) :
    (buffer.length < (Environment.listing ((exec ops).stores store).pairs).length →
      (((exec ops).stores store).writeListingInto buffer).1 = .error .capacityExceeded) ∧
    ((Environment.listing ((exec ops).stores store).pairs).length ≤ buffer.length →
      ∃ len out, ((exec ops).stores store).writeListingInto buffer = (.ok len, out) ∧
        out.take len = Environment.listing ((exec ops).stores store).pairs ∧
        (decodeListing (out.take len) = some (((exec ops).stores store).pairs.map pairBytes) ↔
          ∀ p ∈ ((exec ops).stores store).pairs, Plain p)) ∧
    ((∀ op ∈ ops, op.Plain) → ∀ p ∈ ((exec ops).stores store).pairs, Plain p) ∧
    ∀ (ops' : List EnvOp) (store' : Nat), (∀ op ∈ ops, op.Plain) → (∀ op ∈ ops', op.Plain) →
      Environment.listing ((exec ops).stores store).pairs =
        Environment.listing ((exec ops').stores store').pairs →
      ((exec ops).stores store).pairs = ((exec ops').stores store').pairs := by
  have hkeys : ∀ (ops : List EnvOp) (store : Nat), ∀ p ∈ ((exec ops).stores store).pairs,
      61 ∉ strBytes p.1 := fun ops store p hp =>
    (((exec_inv ops).valid store).keys p.1 (List.mem_map_of_mem hp)).no_equals
  have hplain : ∀ (ops : List EnvOp) (store : Nat), (∀ op ∈ ops, op.Plain) →
      ∀ p ∈ ((exec ops).stores store).pairs, Plain p := by
    intro ops store hops p hp
    rw [(exec_inv ops).pairs] at hp
    obtain ⟨store', hput⟩ := mem_replay hp
    exact hops _ (set_of_mem_past hput)
  have hspec := ((exec_inv ops).valid store).writeListingInto_spec buffer
  refine ⟨hspec.2, fun hfits => ?_, hplain ops store, fun ops' store' hops hops' heq => ?_⟩
  · have htake : (Environment.listing ((exec ops).stores store).pairs ++
        buffer.drop (Environment.listing ((exec ops).stores store).pairs).length).take
          (Environment.listing ((exec ops).stores store).pairs).length =
        Environment.listing ((exec ops).stores store).pairs := List.take_left
    refine ⟨_, _, hspec.1 hfits, htake, ?_⟩
    rw [htake]
    exact decodeListing_iff (hkeys ops store)
  · have hdecode := (decodeListing_iff (hkeys ops store)).mpr (hplain ops store hops)
    have hdecode' := (decodeListing_iff (hkeys ops' store')).mpr (hplain ops' store' hops')
    rw [heq, hdecode', Option.some.injEq] at hdecode
    exact (List.map_injective_iff.mpr pairBytes_injective hdecode).symm

/-- **A newline forges a variable.** The value of `A` has a line of its own in the listing, which
reads as a second variable. -/
theorem listing_forged :
    ((exec [.set 0 "A" "x\nB=y"]).stores 0).pairs = [("A", "x\nB=y")] ∧
      (((exec [.set 0 "A" "x\nB=y"]).stores 0).writeListingInto (List.replicate 8 0)).1 = .ok 8 ∧
      decodeListing ((((exec [.set 0 "A" "x\nB=y"]).stores 0).writeListingInto
        (List.replicate 8 0)).2.take 8) =
          some [(strBytes "A", strBytes "x"), (strBytes "B", strBytes "y")] := by
  decide +kernel

end EnvRun

end Lazers.Kernel
