import LotusKit.Lib.Dict
import Mathlib.Data.List.Perm.Basic
import Mathlib.Logic.Function.Basic

/-! Addresses of symbols, which differ from one version of the game to the next. A file of symbols
gives them as a dictionary, where one key may stand for all versions that have none of their own. -/

namespace LotusKit.Syms
open LotusKit.Lib

/-- A Python string. -/
abbrev Str := List Char

inductive GameVersion where
  | TOTK_100 | TOTK_110 | TOTK_111 | TOTK_112 | TOTK_120 | TOTK_121
  deriving DecidableEq

namespace GameVersion

def name : GameVersion → Str
  | TOTK_100 => "TOTK_100".toList
  | TOTK_110 => "TOTK_110".toList
  | TOTK_111 => "TOTK_111".toList
  | TOTK_112 => "TOTK_112".toList
  | TOTK_120 => "TOTK_120".toList
  | TOTK_121 => "TOTK_121".toList

def number : GameVersion → Nat
  | TOTK_100 => 100
  | TOTK_110 => 110
  | TOTK_111 => 111
  | TOTK_112 => 112
  | TOTK_120 => 120
  | TOTK_121 => 121

/-- `ALL_STR` -/
def all : List GameVersion := [TOTK_100, TOTK_110, TOTK_111, TOTK_112, TOTK_120, TOTK_121]

theorem mem_all (version : GameVersion) : version ∈ all := by
  cases version <;> decide

end GameVersion

/-- A key of a dictionary: the number of a version, or a string. -/
inductive Key where
  | int (version : Nat)
  | str (version : Str)
  deriving DecidableEq

/-- The version that `__getitem__` and `__setitem__` take the key for, or an error. -/
def Key.version? : Key → Option GameVersion
  | int n => GameVersion.all.find? fun version => version.number = n
  | str s => GameVersion.all.find? fun version => version.name = s

/-- `MagicWords.ALL` -/
def ALL : Key := .str "ALL".toList

theorem ALL_version : ALL.version? = none := by decide

/-- An offset, or `MagicWords.SKIP`. -/
inductive Address where
  | offset (n : Nat)
  | SKIP
  deriving DecidableEq

/-- `nullptr`, for a version that has no address. -/
def Address.zero : Address := .offset 0

/-- `version_map` -/
abbrev VersionedAddress := GameVersion → Address

namespace VersionedAddress

/-- What `ALL` does at the time it is read. -/
def fill (ret : VersionedAddress) (v : Address) : VersionedAddress :=
  GameVersion.all.foldl (fun ret ka => if ret ka = .zero then Function.update ret ka v else ret) ret

def setItem (ret : VersionedAddress) (item : Key × Address) : Option VersionedAddress :=
  if item.1 = ALL then some (fill ret item.2)
  else item.1.version?.map fun version => Function.update ret version item.2

def from_pydsl (raw : List (Key × Address)) : Option VersionedAddress := raw.foldlM setItem fun _ => .zero

theorem fill_apply (ret : VersionedAddress) (v : Address) (version : GameVersion) :
    fill ret v version = if ret version = .zero then v else ret version := by
  have some_ (versions : List GameVersion) : versions.foldl (fun ret ka => if ret ka = .zero then Function.update ret ka v
      else ret) ret version = if version ∈ versions ∧ ret version = .zero then v else ret version := by
    induction versions generalizing ret with
    | nil => simp
    | cons ka versions ih =>
      rw [List.foldl_cons, ih]
      by_cases same : version = ka
      · subst same
        by_cases unset : ret version = .zero
        · simp [unset]
        · simp [unset]
      · by_cases unset : ret ka = .zero
        · simp [unset, same]
        · simp [unset, same]
  rw [fill, some_]
  simp [GameVersion.mem_all]

end VersionedAddress

/-- What a dictionary says of a version, and of all others as `none`. -/
def entries (raw : List (Key × Address)) : Dict (Option GameVersion) Address :=
  raw.map fun item => (item.1.version?, item.2)

/-- Every key is read, and no two keys are read as one. -/
structure Unambiguous (raw : List (Key × Address)) : Prop where
  read : ∀ item ∈ raw, item.1 = ALL ∨ item.1.version?.isSome
  apart : ((entries raw).map Prod.fst).Nodup

/-- The address of a version: its own one, or that of all versions. -/
def meaning (raw : List (Key × Address)) : VersionedAddress := fun version =>
  ((entries raw).get (some version)).getD (((entries raw).get none).getD .zero)

section Meaning
variable {raw raw' : List (Key × Address)}

theorem Unambiguous.perm (u : Unambiguous raw) (perm : raw'.Perm raw) : Unambiguous raw' where
  read item member := u.read item (perm.mem_iff.mp member)
  apart := ((perm.map _).map Prod.fst).nodup_iff.mpr u.apart

theorem get_perm (u : Unambiguous raw) (perm : raw'.Perm raw) (version : Option GameVersion) :
    (entries raw').get version = (entries raw).get version :=
  Dict.get_perm (u.perm perm).apart (perm.map _) version

theorem get_entries_cons (item : Key × Address) (raw : List (Key × Address)) (version : Option GameVersion) :
    (entries (item :: raw)).get version =
      if item.1.version? = version then some item.2 else (entries raw).get version := by
  unfold entries Dict.get
  rw [List.map_cons, List.find?_cons]
  split_ifs with same
  · simp only [same, decide_true, Option.map_some]
  · simp only [same, decide_false]

/-- What is said of a version or of all is not said again. -/
theorem Unambiguous.tail {item : Key × Address} (u : Unambiguous (item :: raw)) :
    Unambiguous raw ∧ (entries raw).get item.1.version? = none := by
  obtain ⟨read, apart⟩ := u
  rw [entries, List.map_cons, List.map_cons, List.nodup_cons] at apart
  have once : (entries raw).get item.1.version? = none := by
    rw [← Option.not_isSome_iff_eq_none, Dict.isSome_get]
    exact apart.1
  exact ⟨⟨fun other member => read other (List.mem_cons_of_mem item member), apart.2⟩, once⟩

theorem ite_zero (x : Address) : (if x = .zero then Address.zero else x) = x := by
  split_ifs with zero
  · exact zero.symm
  · rfl

/-- A run of the loop, for a version that is not said to be at zero where all others are not. -/
theorem foldlM_setItem (u : Unambiguous raw) (ret : VersionedAddress) : ∃ done, raw.foldlM VersionedAddress.setItem ret = some done ∧
    ∀ version, ((entries raw).get (some version) ≠ some .zero ∨ ((entries raw).get none).getD .zero = .zero) →
      done version = ((entries raw).get (some version)).getD
        (if ret version = .zero then ((entries raw).get none).getD .zero else ret version) := by
  induction raw generalizing ret with
  | nil =>
    refine ⟨ret, rfl, fun version _ => ?_⟩
    exact (ite_zero (ret version)).symm
  | cons item raw ih =>
    obtain ⟨u', once⟩ := u.tail
    by_cases all : item.1 = ALL
    · have unread : item.1.version? = none := all ▸ ALL_version
      obtain ⟨done, run, ends⟩ := ih u' (ret.fill item.2)
      refine ⟨done, ?_, fun version condition => ?_⟩
      · rw [List.foldlM_cons, VersionedAddress.setItem, if_pos all]
        exact run
      · rw [unread] at once
        simp only [get_entries_cons, unread, reduceCtorEq, if_false, if_true, Option.getD_some] at condition ⊢
        rw [ends version (.inr (once ▸ rfl)), once, VersionedAddress.fill_apply, Option.getD_none, ite_zero]
    · obtain ⟨version, own⟩ := Option.isSome_iff_exists.mp ((u.read item List.mem_cons_self).resolve_left all)
      obtain ⟨done, run, ends⟩ := ih u' (Function.update ret version item.2)
      refine ⟨done, ?_, fun version' condition => ?_⟩
      · rw [List.foldlM_cons, VersionedAddress.setItem, if_neg all, own]
        exact run
      · rw [own] at once
        simp only [get_entries_cons, own, reduceCtorEq, if_false, Option.some.injEq] at condition ⊢
        by_cases same : version = version'
        · subst same
          simp only [if_true, Option.getD_some, ne_eq, Option.some.injEq] at condition ⊢
          rw [ends version (.inl fun zero => Option.some_ne_none _ (zero.symm.trans once)), once, Option.getD_none, Function.update_self]
          split_ifs with zero
          · exact (condition.resolve_left (not_not_intro zero)).trans zero.symm
          · rfl
        · simp only [if_neg same] at condition ⊢
          rw [ends version' condition, Function.update_of_ne (Ne.symm same)]

/-- The order of the keys matters just when there is an address for all versions, and one version
is said to be at zero: it is at zero only if it is read later. -/
theorem from_pydsl_eq_meaning (u : Unambiguous raw) :
    (∀ raw', raw'.Perm raw → VersionedAddress.from_pydsl raw' = some (meaning raw)) ↔
      (∀ version, (entries raw).get (some version) ≠ some .zero) ∨ ((entries raw).get none).getD .zero = .zero := by
  constructor
  · intro ordered
    by_contra differs
    push Not at differs
    obtain ⟨⟨version, zero⟩, all⟩ := differs
    cases rest : (entries raw).get none with
    | none => exact all (congrArg (Option.getD · .zero) rest)
    | some x =>
      rw [rest, Option.getD_some] at all
      obtain ⟨item, member, same⟩ := List.mem_map.mp (Dict.mem_of_get rest)
      obtain ⟨unread, rfl⟩ := Prod.mk.inj same
      have key : item.1 = ALL := (u.read item member).resolve_right (by rw [unread]; exact Bool.false_ne_true)
      obtain ⟨front, back, rfl⟩ := List.append_of_mem member
      have perm : (item :: (front ++ back)).Perm (front ++ item :: back) := List.perm_middle.symm
      obtain ⟨u', once⟩ := (u.perm perm).tail
      have own : (entries (front ++ back)).get (some version) = some .zero := by
        rw [← zero, ← get_perm u perm, get_entries_cons, unread, if_neg (Option.some_ne_none version).symm]
      obtain ⟨done, run, ends⟩ := foldlM_setItem u' fun _ => .zero
      -- with all versions read last, this one is no longer at zero
      have last := ordered (front ++ back ++ [item]) ((List.perm_append_singleton item _).trans perm)
      rw [VersionedAddress.from_pydsl, List.foldlM_append, run] at last
      have filled : VersionedAddress.fill done item.2 = meaning (front ++ item :: back) := by
        simpa [VersionedAddress.setItem, key] using last
      have value := congrFun filled version
      rw [unread] at once
      rw [VersionedAddress.fill_apply, ends version (.inr (once ▸ rfl)), own, Option.getD_some, if_pos rfl, meaning, zero,
        Option.getD_some] at value
      exact all value
  · intro condition raw' perm
    obtain ⟨done, run, ends⟩ := foldlM_setItem (u.perm perm) fun _ => .zero
    rw [VersionedAddress.from_pydsl, run]
    refine congrArg some (funext fun version => ?_)
    have value := ends version
    rw [get_perm u perm, get_perm u perm, if_pos rfl] at value
    exact value (condition.imp_left fun nonzero => nonzero version)

/-- A version that is said to be at zero, and an address for all versions. -/
def zeroed : List (Key × Address) := [(.int 121, .zero), (ALL, .offset 7)]

theorem zeroed_order : (∀ raw', raw'.Perm zeroed → VersionedAddress.from_pydsl raw' = some (meaning zeroed)) ↔
    (∀ version, (entries zeroed).get (some version) ≠ some .zero) ∨ ((entries zeroed).get none).getD .zero = .zero :=
  from_pydsl_eq_meaning ⟨by decide, by decide⟩

end Meaning

end LotusKit.Syms
