import Lazers.Memory.Startup

/-!
# Spawn arguments from userland to the child (`liblazer/src/process.rs`)

`serialize_spawn_args` packs the arguments of a spawn into a 512-byte payload,
one NUL after each. The kernel reads the payload back when it lays out the
child's stack (`prepare_startup_layout`).

Both sides reject NUL bytes and both bound the sizes, but only the kernel
rejects an empty argument: a list of arguments reaches the child unchanged if
and only if none of them is empty (`spawnArgs_arrive_iff`).
-/

namespace Lazers.LibLazer

open Memory

def maxSpawnArgData : Nat := 512

inductive SpawnSerializeError where
  | invalidUtf8
  | tooLarge
deriving DecidableEq, Repr

/-- The loop of `serialize_spawn_args`; `written` is the filled part of the
buffer. -/
def serializeFrom (capacity : Nat) : (args : List String) → (written : List UInt8) →
    Except SpawnSerializeError (List UInt8)
  | [], written => .ok written
  | arg :: rest, written =>
    if (strBytes arg).contains 0 then .error .invalidUtf8
    else if written.length + ((strBytes arg).length + 1) > capacity then .error .tooLarge
    else serializeFrom capacity rest (written ++ strBytes arg ++ [0])

/-- `serialize_spawn_args` on the buffer of `spawn_wait_impl`: the payload. -/
def serializeSpawnArgs (args : List String) : Except SpawnSerializeError (List UInt8) :=
  serializeFrom maxSpawnArgData args []

/-- A payload is its arguments, each with a NUL, and fits the buffer. -/
theorem serializeFrom_eq_ok {capacity : Nat} {args : List String} {written payload : List UInt8}
    (hroom : written.length ≤ capacity)
    (h : serializeFrom capacity args written = .ok payload) :
    payload = written ++ payloadOf (args.map strBytes) ∧ payload.length ≤ capacity ∧
      ∀ arg ∈ args, 0 ∉ strBytes arg := by
  induction args generalizing written with
  | nil =>
    obtain rfl := Except.ok.inj h
    exact ⟨by simp [payloadOf], hroom, by simp⟩
  | cons arg rest ih =>
    rw [serializeFrom] at h
    split_ifs at h with hnul hfull
    have hlen : (written ++ strBytes arg ++ [0]).length ≤ capacity := by
      simp only [List.length_append, List.length_cons, List.length_nil]
      omega
    obtain ⟨hpayload, hcap, hrest⟩ := ih hlen h
    refine ⟨?_, hcap, ?_⟩
    · rw [hpayload, List.map_cons, payloadOf_cons]
      simp
    · intro a ha
      rcases List.mem_cons.mp ha with rfl | ha
      · simpa using hnul
      · exact hrest a ha

/-- **Which argument lists arrive.** For every list of at most 31 arguments that
fits the payload and every NUL-free program name of at most 256 bytes, the
kernel lays out exactly that name and those arguments if and only if none of
the arguments is empty. -/
theorem spawnArgs_arrive_iff {args : List String} {payload : List UInt8} (argv0 : String)
    (hser : serializeSpawnArgs args = .ok payload) (hcount : args.length ≤ 31)
    (hnul : 0 ∉ strBytes argv0) (hlen : (strBytes argv0).length ≤ 256) :
    (∃ layout, prepareStartupLayout ⟨argv0, payload⟩ = .ok layout ∧
      layout.argc = 1 + args.length ∧ layout.args = strBytes argv0 :: args.map strBytes) ↔
    ∀ arg ∈ args, arg ≠ "" := by
  obtain ⟨hpayload, hcap, hfree⟩ := serializeFrom_eq_ok (Nat.zero_le _) hser
  rw [List.nil_append] at hpayload
  have hutf8 : ∀ field ∈ args.map strBytes, isUtf8 field = true := by
    intro field hfield
    obtain ⟨arg, -, rfl⟩ := List.mem_map.mp hfield
    exact isUtf8_strBytes arg
  have hnuls : ∀ field ∈ args.map strBytes, 0 ∉ field := by
    intro field hfield
    obtain ⟨arg, harg, rfl⟩ := List.mem_map.mp hfield
    exact hfree arg harg
  have hlimit : [strBytes argv0].length + (args.map strBytes).length ≤ maxStartupArgs := by
    rw [List.length_map, List.length_singleton, maxStartupArgs]
    omega
  -- the kernel's loop over the payload is decided by emptiness alone
  have hparse := parseArgvTail_payload hutf8 hnuls hlimit (le_refl _)
  rw [← hpayload] at hparse
  have hsize : stringsSize (strBytes argv0 :: args.map strBytes) ≤ 257 + 512 := by
    have hstrings : stringsSize (args.map strBytes) = payload.length := by
      rw [hpayload, length_payloadOf]
    simp only [stringsSize, List.map_cons, List.sum_cons] at hstrings ⊢
    rw [maxSpawnArgData] at hcap
    omega
  have hunfold : prepareStartupLayout ⟨argv0, payload⟩ =
      (parseArgvTail payload.length payload [strBytes argv0] >>= placeArguments) := by
    simp [prepareStartupLayout, isUtf8_strBytes, hnul]
  have hnonempty : (∀ field ∈ args.map strBytes, field ≠ []) ↔ ∀ arg ∈ args, arg ≠ "" := by
    simp [strBytes_eq_nil]
  rw [hunfold, hparse]
  by_cases hall : ∀ field ∈ args.map strBytes, field ≠ []
  · rw [if_pos hall]
    refine ⟨fun _ => hnonempty.mp hall, fun _ => ?_⟩
    have hfits : stringsSize (strBytes argv0 :: args.map strBytes) +
        ((strBytes argv0 :: args.map strBytes).length + 1) * 8 + 32 ≤
          userStackPages * pageSize := by
      rw [List.length_cons, List.length_map, userStackPages, pageSize]
      omega
    obtain ⟨layout, hlayout⟩ := placeArguments_ok hfits
    have hargs := (placeArguments_eq_ok hlayout).args_eq
    refine ⟨layout, hlayout, ?_, hargs⟩
    rw [StartupLayout.argc, hargs, List.length_cons, List.length_map, Nat.add_comm]
  · rw [if_neg hall]
    constructor
    · rintro ⟨layout, hlayout, -⟩
      cases hlayout
    · exact fun h => absurd (hnonempty.mpr h) hall

/-- Two arguments that arrive. -/
theorem spawnArgs_arrive_iff_at_sample :
    ∃ layout, prepareStartupLayout ⟨"/system/bin/echo", [97, 0, 98, 0]⟩ = .ok layout ∧
      layout.argc = 3 ∧ layout.args = [strBytes "/system/bin/echo", [97], [98]] := by
  have hser : serializeSpawnArgs ["a", "b"] = .ok [97, 0, 98, 0] := by decide +kernel
  obtain ⟨layout, hlayout, hargc, hargs⟩ :=
    (spawnArgs_arrive_iff "/system/bin/echo" hser (by decide) (by decide +kernel)
      (by decide +kernel)).mpr (by decide)
  exact ⟨layout, hlayout, hargc, hargs⟩

/-- **An empty argument is lost.** The encoder accepts it and the kernel refuses
the payload. -/
theorem empty_argument_rejected :
    serializeSpawnArgs [""] = .ok [0] ∧
      prepareStartupLayout ⟨"/system/bin/echo", [0]⟩ = .error .invalidStartupArguments := by
  decide +kernel

end Lazers.LibLazer
