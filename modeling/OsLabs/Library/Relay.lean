import Mathlib.Data.List.Infix
import Mathlib.Data.List.TakeDrop
import Mathlib.Logic.Function.Basic

/-!
# Relays

A relay takes posts one after another and passes them on. Whoever asks to
join gets a place, as long as there is one, and is told which. From then on it
gets whatever somebody else says, and nothing else. A request may come from
nobody that could be told; it takes a place all the same.

The relay knows no addresses and sends no messages. It is what a server with
a registry is for, and what each of those in the registry should have got is
read off the list of the posts (`mail_of_joined`).

## Main definitions

* `Post`, `Delivery`: What a relay takes and what it passes on.
* `Room`, `Room.post`: The relay, and what a post does to it.
* `room`: The relay after a list of posts.

## Theorems

* `members_room`: The places go to the first who ask.
* `say_of_mem_mail`: Only what was said is told.
* `mail_of_joined`: What somebody with a place has got.
* `mail_of_out`: Nobody else has got anything.
-/

namespace OsLabs

namespace Relay

variable {π ν : Type*}

/-- A request for a place, or something that somebody says. -/
inductive Post (π ν : Type*) where
  | join (p : Option π)
  | say (p : π) (x : ν)

/-- The place that a request got, or what somebody said. -/
inductive Delivery (π ν : Type*) where
  | place (k : Nat)
  | said (p : π) (x : ν)

/-- Who has the places, and what everybody was told. -/
structure Room (π ν : Type*) where
  members : List (Option π)
  mail : π → List (Delivery π ν)

def Room.empty : Room π ν := ⟨[], fun _ => []⟩

/-- Whom a request is from. -/
def Post.asker : Post π ν → Option (Option π)
  | join p => some p
  | say _ _ => none

section Step

variable [DecidableEq π]

/-- What a post brings to somebody with a place. -/
def Post.told (p : π) : Post π ν → Option (Delivery π ν)
  | join _ => none
  | say p' x => if p' = p then none else some (.said p' x)

/-- What a post brings to somebody. -/
def Room.delivery (cap : Nat) (r : Room π ν) (p : π) : Post π ν → List (Delivery π ν)
  | .join p' => if r.members.length < cap ∧ p' = some p then [.place r.members.length] else []
  | .say p' x => if some p ∈ r.members then ((Post.say p' x).told p).toList else []

def Room.post (cap : Nat) (r : Room π ν) (x : Post π ν) : Room π ν where
  members := if r.members.length < cap then r.members ++ x.asker.toList else r.members
  mail := fun p => r.mail p ++ r.delivery cap p x

/-- The relay after a list of posts. -/
def room (cap : Nat) (posts : List (Post π ν)) : Room π ν := posts.foldl (Room.post cap) Room.empty

variable {cap : Nat}

theorem room_concat (posts : List (Post π ν)) (x : Post π ν) :
    room cap (posts ++ [x]) = (room cap posts).post cap x := by
  unfold room
  rw [List.foldl_append]
  rfl

/-- The places go to the first who ask. -/
theorem members_room (posts : List (Post π ν)) :
    (room cap posts).members = (posts.filterMap Post.asker).take cap := by
  induction posts using List.reverseRecOn with
  | nil => exact List.take_nil.symm
  | append_singleton posts x ih =>
      have hlast : [x].filterMap Post.asker = x.asker.toList := by
        cases hasker : x.asker with
        | none => rw [List.filterMap_cons_none hasker, List.filterMap_nil, Option.toList_none]
        | some p => rw [List.filterMap_cons_some hasker, List.filterMap_nil, Option.toList_some]
      rw [room_concat, List.filterMap_append, hlast]
      change (if (room cap posts).members.length < cap then _ else _) = _
      by_cases hroom : (room cap posts).members.length < cap
      · rw [if_pos hroom]
        rw [ih, List.length_take] at hroom
        have hlength : (posts.filterMap Post.asker).length < cap := by omega
        rw [ih, List.take_of_length_le (Nat.le_of_lt hlength), List.take_of_length_le]
        -- A post is at most one request.
        have hone : x.asker.toList.length ≤ 1 := Option.length_toList_le
        rw [List.length_append]
        omega
      · rw [if_neg hroom, ih]
        rw [ih, List.length_take] at hroom
        rw [List.take_append_of_le_length (by omega)]

theorem mem_members {posts : List (Post π ν)} {p : Option π}
    (h : p ∈ (room cap posts).members) : .join p ∈ posts := by
  rw [members_room] at h
  rcases List.mem_filterMap.mp (List.mem_of_mem_take h) with ⟨x, hx, hasker⟩
  cases x with
  | join p' => rwa [← Option.some.inj hasker]
  | say p' y => exact absurd hasker (by simp only [Post.asker, reduceCtorEq, not_false_eq_true])

/-- The place of a request counts those before it. -/
theorem members_joined {before after : List (Post π ν)} {p : Option π}
    (hroom : (before.filterMap Post.asker).length < cap) :
    (room cap (before ++ .join p :: after)).members[(before.filterMap Post.asker).length]?
      = some p := by
  have hasker : (Post.join p : Post π ν).asker = some p := rfl
  rw [members_room, List.filterMap_append, List.filterMap_cons_some hasker,
    List.getElem?_take_of_lt hroom, List.getElem?_append_right (Nat.le_refl _), Nat.sub_self]
  rfl

/-- Those after the last place have none. -/
theorem not_mem_members_of_late {before after : List (Post π ν)} {p : Option π}
    (hlate : cap ≤ (before.filterMap Post.asker).length) (hbefore : .join p ∉ before) :
    p ∉ (room cap (before ++ after)).members := by
  intro hmem
  rw [members_room, List.filterMap_append, List.take_append_of_le_length hlate,
    ← members_room] at hmem
  exact hbefore (mem_members hmem)

/-- Who has a place keeps it. -/
theorem mem_members_post {r : Room π ν} {p : Option π} (x : Post π ν) (h : p ∈ r.members) :
    p ∈ (r.post cap x).members := by
  change p ∈ (if r.members.length < cap then _ else _)
  by_cases hroom : r.members.length < cap
  · rw [if_pos hroom]
    exact List.mem_append_left _ h
  · rwa [if_neg hroom]

/-- Only what was said is told. -/
theorem say_of_mem_mail {posts : List (Post π ν)} {p p' : π} {x : ν}
    (h : .said p' x ∈ (room cap posts).mail p) : .say p' x ∈ posts := by
  induction posts using List.reverseRecOn with
  | nil => exact absurd h List.not_mem_nil
  | append_singleton posts y ih =>
      rw [room_concat] at h
      rcases List.mem_append.mp h with hold | hnew
      · exact List.mem_append_left _ (ih hold)
      · refine List.mem_append_right _ (List.mem_singleton.mpr ?_)
        cases y with
        | join p'' =>
            rcases List.mem_ite_nil_right.mp hnew with ⟨_, hplace⟩
            exact absurd (List.mem_singleton.mp hplace)
              (by simp only [reduceCtorEq, not_false_eq_true])
        | say p'' z =>
            rcases List.mem_ite_nil_right.mp hnew with ⟨_, htold⟩
            rcases Option.ite_none_left_eq_some.mp (Option.mem_toList.mp htold) with ⟨_, hsame⟩
            rcases Delivery.said.inj (Option.some.inj hsame) with ⟨rfl, rfl⟩
            rfl

/-- Nobody that has no place has got anything. -/
theorem mail_of_out {posts : List (Post π ν)} {p : π} (h : some p ∉ (room cap posts).members) :
    (room cap posts).mail p = [] := by
  induction posts using List.reverseRecOn with
  | nil => rfl
  | append_singleton posts x ih =>
      rw [room_concat] at h ⊢
      have hout : some p ∉ (room cap posts).members := fun hmem => h (mem_members_post x hmem)
      have hnone : (room cap posts).delivery cap p x = [] := by
        cases x with
        | join p' =>
            refine if_neg fun hjoin => h ?_
            change some p ∈ (if (room cap posts).members.length < cap then _ else _)
            rw [if_pos hjoin.1, hjoin.2]
            exact List.mem_append_right _ List.mem_cons_self
        | say p' y => exact if_neg hout
      change (room cap posts).mail p ++ (room cap posts).delivery cap p x = []
      rw [ih hout, hnone, List.append_nil]

/-- Whoever has a place gets what the others say, in the order of the posts. -/
theorem mail_of_member {r : Room π ν} {p : π} (hmem : some p ∈ r.members)
    {posts : List (Post π ν)} (honce : .join (some p) ∉ posts) :
    (posts.foldl (Room.post cap) r).mail p = r.mail p ++ posts.filterMap (Post.told p) := by
  induction posts generalizing r with
  | nil => exact (List.append_nil _).symm
  | cons x posts ih =>
      rw [List.mem_cons, not_or] at honce
      have hdelivery : r.delivery cap p x = (x.told p).toList := by
        cases x with
        | join p' => exact if_neg fun hjoin => honce.1 (by rw [hjoin.2])
        | say p' y => exact if_pos hmem
      have hmail : (r.post cap x).mail p = r.mail p ++ (x.told p).toList := by
        rw [← hdelivery]
        rfl
      rw [List.foldl_cons, ih (mem_members_post x hmem) honce.2, hmail, List.append_assoc]
      cases htold : x.told p with
      | none => rw [List.filterMap_cons_none htold, Option.toList_none, List.nil_append]
      | some d => rw [List.filterMap_cons_some htold, Option.toList_some, List.singleton_append]

/-- Somebody that has asked once, when there was a place, was told which place,
    and then got what the others said. -/
theorem mail_of_joined {before after : List (Post π ν)} {p : π}
    (hroom : (before.filterMap Post.asker).length < cap) (hbefore : .join (some p) ∉ before)
    (hafter : .join (some p) ∉ after) :
    (room cap (before ++ .join (some p) :: after)).mail p
      = .place (before.filterMap Post.asker).length :: after.filterMap (Post.told p) := by
  have hlength : (room cap before).members.length = (before.filterMap Post.asker).length := by
    rw [members_room, List.take_of_length_le (Nat.le_of_lt hroom)]
  have hsplit : room cap (before ++ .join (some p) :: after)
      = after.foldl (Room.post cap) ((room cap before).post cap (.join (some p))) := by
    unfold room
    rw [List.foldl_append, List.foldl_cons]
  have hmem : some p ∈ ((room cap before).post cap (.join (some p))).members := by
    change some p ∈ (if (room cap before).members.length < cap then _ else _)
    rw [if_pos (by rwa [hlength])]
    exact List.mem_append_right _ List.mem_cons_self
  have hplace : ((room cap before).post cap (.join (some p))).mail p
      = [.place (before.filterMap Post.asker).length] := by
    change (room cap before).mail p ++ (if _ then _ else _) = _
    rw [mail_of_out fun hearly => hbefore (mem_members hearly), List.nil_append,
      if_pos ⟨by rwa [hlength], rfl⟩, hlength]
  rw [hsplit, mail_of_member hmem hafter, hplace, List.singleton_append]

end Step

end Relay

end OsLabs
