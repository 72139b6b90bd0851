import PocketKv.Resp.Bytes

/-!
# What the storage engines share
-/

namespace PocketKv.Storage

open Resp

variable {a b c : Bytes}

/-- Bytes are compared as unsigned numbers, and the end of a string comes before any byte. -/
def strcmp (a b : Bytes) : Ordering := compare a b

theorem strcmp_gt_iff : strcmp a b = .gt ↔ strcmp b a = .lt := by
  unfold strcmp
  exact Std.OrientedCmp.gt_iff_lt

theorem strcmp_eq_iff : strcmp a b = .eq ↔ a = b := by
  unfold strcmp
  exact Std.LawfulEqCmp.compare_eq_iff_eq

theorem strcmp_trans (hab : strcmp a b = .lt) (hbc : strcmp b c = .lt) : strcmp a c = .lt := by
  unfold strcmp at *
  exact Std.TransCmp.lt_trans hab hbc

/-- Entries in the order of their keys. -/
def Sorted (l : List (Bytes × Bytes)) : Prop := l.Pairwise fun a b => strcmp a.1 b.1 = .lt

/-- A call of an engine that needs nothing but keys and values. -/
inductive EngineCall where
  | set (key value : Bytes)
  | get (key : Bytes)
  | mod (key value : Bytes)
  | del (key : Bytes)
  | exist (key : Bytes)

/-- What a call of an engine returns. -/
inductive EngineReply where
  | code (n : ℤ)
  /-- A string, or NULL. -/
  | value (v : Option Bytes)
  /-- It does not return: the process accesses memory that is not its own. -/
  | fault
  deriving DecidableEq

end PocketKv.Storage
