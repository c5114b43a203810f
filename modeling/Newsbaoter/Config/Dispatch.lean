import Newsbaoter.Config.HelpPage
import Newsbaoter.Hash.Names

/-!
# What a key does

Once the options are read, `process_key` looks each key up in a table that never
grows.  A key with a binding is always found; to look up another one is safe
while a slot is free.
-/

namespace Newsbaoter
namespace Config

open Newsbaoter.Support
open Hash (initialLoctabSize)

variable {mbtowc : CStr → Option UInt32}

/-- The keys that have a binding in the end. -/
def boundKeys (ops : List KeyOp) : Finset UInt32 :=
  (ops.map KeyOp.key).toFinset.filter fun c => (boundTo c ops).isSome

theorem mem_boundKeys {ops : List KeyOp} {c : UInt32} :
    c ∈ boundKeys ops ↔ ∃ h, boundTo c ops = some h := by
  rw [boundKeys, Finset.mem_filter, Option.isSome_iff_exists, and_iff_right_iff_imp]
  rintro ⟨h, hbound⟩
  rw [boundTo] at hbound
  cases hfind : ops.reverse.find? fun op => op.key == c with
  | none =>
      rw [hfind] at hbound
      cases hbound
  | some op =>
      have hkey : op.key = c := by simpa using List.find?_some hfind
      rw [List.mem_toFinset, List.mem_map]
      exact ⟨op, List.mem_reverse.mp (List.mem_of_find?_eq_some hfind), hkey⟩

/-- The names in the table are the codes of these keys. -/
theorem mem_codes_iff
    {ops : List KeyOp} {keys : KeyTable}
    (hruns : runs Hash.step Hash.initTable (ops.map KeyOp.hashOp) = some keys) (name : CStr) :
    name ∈ (boundKeys ops).map ⟨hexText, hexText_injective⟩ ↔
      ∃ value, ((ops.map KeyOp.hashOp).foldl Hash.Op.apply fun _ => none) name = some value := by
  have hrefines := Hash.refines_of_runs hruns
  rw [Finset.mem_map]
  constructor
  · rintro ⟨c, hc, rfl⟩
    obtain ⟨h, hbound⟩ := mem_boundKeys.mp hc
    exact ⟨some h, hrefines.mem_records_iff.mp
      ((mem_records_iff_boundTo hruns).mpr ⟨c, h, rfl, rfl, hbound⟩)⟩
  · rintro ⟨value, hvalue⟩
    obtain ⟨c, h, rfl, -, hbound⟩ :=
      (mem_records_iff_boundTo hruns).mp (hrefines.mem_records_iff.mpr hvalue)
    exact ⟨c, mem_boundKeys.mpr ⟨h, hbound⟩, rfl⟩

theorem room_iff_boundKeys
    {ops : List KeyOp} {keys : KeyTable}
    (hruns : runs Hash.step Hash.initTable (ops.map KeyOp.hashOp) = some keys) (c : UInt32) :
    Hash.Room keys (hexText c) ↔ (insert c (boundKeys ops)).card ≤ initialLoctabSize := by
  have hinsert : insert (hexText c) ((boundKeys ops).map ⟨hexText, hexText_injective⟩) =
      (insert c (boundKeys ops)).map ⟨hexText, hexText_injective⟩ :=
    (Finset.map_insert ⟨hexText, hexText_injective⟩ c (boundKeys ops)).symm
  rw [(Hash.refines_of_runs hruns).room_iff (mem_codes_iff hruns), hinsert, Finset.card_map]

/-- The keys that are bound, with the one a call is about, are never more than
the slots. -/
def BindingsFit (ops : List KeyOp) : Prop :=
  ∀ before op after, ops = before ++ op :: after →
    (insert op.key (boundKeys before)).card ≤ initialLoctabSize

theorem hashOp_fits (keys : KeyTable) (op : KeyOp) :
    op.hashOp.Fits keys ↔ Hash.Room keys (hexText op.key) := by
  cases op <;> rfl

theorem runs_isSome_iff_bindingsFit (ops : List KeyOp) :
    (runs Hash.step Hash.initTable (ops.map KeyOp.hashOp)).isSome ↔ BindingsFit ops := by
  induction ops using List.reverseRecOn with
  | nil =>
      refine iff_of_true rfl fun before op after heq => ?_
      exact absurd heq.symm (List.append_ne_nil_of_right_ne_nil _ (List.cons_ne_nil _ _))
  | append_singleton ops op ih =>
      have hsplit : BindingsFit (ops ++ [op]) ↔
          BindingsFit ops ∧ (insert op.key (boundKeys ops)).card ≤ initialLoctabSize := by
        constructor
        · intro hfit
          refine ⟨fun before op' after heq => hfit before op' (after ++ [op]) ?_, hfit ops op [] rfl⟩
          rw [heq, List.append_assoc, List.cons_append]
        · rintro ⟨hfit, hlast⟩ before op' after heq
          rcases List.eq_nil_or_concat after with rfl | ⟨after, op'', rfl⟩
          · obtain ⟨rfl, hop⟩ := List.append_inj' heq rfl
            cases hop
            exact hlast
          · rw [List.concat_eq_append, ← List.cons_append, ← List.append_assoc] at heq
            obtain ⟨heq, -⟩ := List.append_inj' heq rfl
            exact hfit before op' after heq
      rw [hsplit, ← ih, List.map_append, runs_append]
      cases hruns : runs Hash.step Hash.initTable (ops.map KeyOp.hashOp) with
      | none => simp
      | some keys =>
          have hfits := Hash.step_isSome_iff (Hash.refines_of_runs hruns).stuck op.hashOp
          rw [hashOp_fits, room_iff_boundKeys hruns] at hfits
          rw [Option.bind_some, List.map_singleton, runs_cons, ← hfits]
          cases Hash.step keys op.hashOp with
          | none => simp
          | some keys' => simp

theorem processKey_eq
    {ops : List KeyOp} {keys : KeyTable}
    (hruns : runs Hash.step Hash.initTable (ops.map KeyOp.hashOp) = some keys) (c : UInt32) :
    processKey c keys =
      if c ∈ boundKeys ops ∨ (boundKeys ops).card < initialLoctabSize then some (boundTo c ops)
      else none := by
  have hrefines := Hash.refines_of_runs hruns
  have hmem : hexText c ∈ (boundKeys ops).map ⟨hexText, hexText_injective⟩ ↔ c ∈ boundKeys ops :=
    Finset.mem_map' ⟨hexText, hexText_injective⟩
  rw [processKey, hrefines.getHashVar_eq (mem_codes_iff hruns), Hash.foldl_apply_join,
    lastSet_hashOps]
  exact if_congr (or_congr hmem (by rw [Finset.card_map])) rfl rfl

/-! ## The options file -/

/-- The calls of `bind_key` and `unbind_key`, where there may be no file. -/
def fileOps (mbtowc : CStr → Option UInt32) : Option (List CStr) → List KeyOp
  | none => defaultOps
  | some bufs => keyOps mbtowc bufs

theorem runs_fileOps {file : Option (List CStr)} {g : Globals}
    (hread : readConfigOptionsFile mbtowc file = some g) :
    runs Hash.step Hash.initTable ((fileOps mbtowc file).map KeyOp.hashOp) = some g.keys := by
  obtain ⟨g₀, hg₀, hread⟩ := Option.bind_eq_some_iff.mp hread
  cases file with
  | none =>
      cases hread
      obtain ⟨keys, hkeys, rfl⟩ := Option.map_eq_some_iff.mp hg₀
      rw [fileOps, ← bindDefaults_eq, hkeys]
  | some bufs =>
      obtain ⟨g₁, hoptions, rfl⟩ := Option.map_eq_some_iff.mp hread
      have hruns := runs_of_readOptions hg₀ hoptions
      exact hruns

/-- The file is read to its end just if its bindings fit. -/
theorem readConfigOptionsFile_isSome_iff (file : Option (List CStr)) :
    (readConfigOptionsFile mbtowc file).isSome ↔ BindingsFit (fileOps mbtowc file) := by
  obtain ⟨keys, hkeys⟩ := Option.isSome_iff_exists.mp bindDefaults_isSome
  have hg : boundGlobals = some ⟨defaultConfig, keys, handlerNames⟩ := by
    rw [boundGlobals, hkeys]
    rfl
  rw [← runs_isSome_iff_bindingsFit, readConfigOptionsFile, hg, Option.bind_some]
  cases file with
  | none =>
      rw [fileOps, ← bindDefaults_eq, hkeys]
      exact iff_of_true rfl rfl
  | some bufs =>
      dsimp only
      rw [fileOps, Hash.runs_isSome_iff_fits, ← readOptions_isSome_iff hg, Option.isSome_map]

/-- Whatever the options file has: it is read to its end just if its bindings fit,
and then a key does what the last line about it says.  A key without a binding is
ignored, but with 32 bound keys its lookup leaves the table. -/
theorem options_dispatch (mbtowc : CStr → Option UInt32) (file : Option (List CStr)) :
    ((readConfigOptionsFile mbtowc file).isSome ↔ BindingsFit (fileOps mbtowc file)) ∧
      ∀ g, readConfigOptionsFile mbtowc file = some g → ∀ c,
        processKey c g.keys =
          if c ∈ boundKeys (fileOps mbtowc file) ∨
              (boundKeys (fileOps mbtowc file)).card < initialLoctabSize then
            some (boundTo c (fileOps mbtowc file))
          else none :=
  ⟨readConfigOptionsFile_isSome_iff file, fun _ hread c => processKey_eq (runs_fileOps hread) c⟩

end Config
end Newsbaoter
