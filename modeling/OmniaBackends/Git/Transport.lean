import Mathlib.Data.List.Infix
import OmniaBackends.Foundation.Shell
import OmniaBackends.Git.Config

/-!
# Transports

`Client::transport_args` of `crates/git/src/command/pins.rs`: the protocols git may use for an
address, and the command it is to start for the far side. For a local transport that is this git
under `LOCAL_PACK_PINS`, written for a shell to split; for a remote one it is git's own.

What the address is to `is_local` and what it is to git are two things. `reachOf` and `transportOf`
are git's: an address is a URL, a helper's address, a path, or a host and a path, and a transport
runs only if `GIT_ALLOW_PROTOCOL` names it. Whatever the address, a local transport that runs
carries the pins, and where the two disagree none runs (`transport_pinned`).
-/

set_option autoImplicit false
set_option relaxedAutoImplicit false

namespace OmniaBackends.Git

open Foundation

/-- What the far side of a local transport is held to. -/
def LOCAL_PACK_PINS : List Bytes :=
  [text "core.hooksPath=/dev/null", text "core.alternateRefsCommand=", text "core.fsmonitor=false",
    text "receive.denyCurrentBranch=refuse"]

/-- What stands before and after the first place a separator of several bytes does. -/
def splitOnText (separator : Bytes) : Bytes → Option (Bytes × Bytes)
  | [] => if separator = [] then some ([], []) else none
  | byte :: rest =>
    match separator.isPrefixOf? (byte :: rest) with
    | some after => some ([], after)
    | none => (splitOnText separator rest).map fun halves ↦ (byte :: halves.1, halves.2)

/-- `is_local`. -/
def isLocal (address : Bytes) : Bool :=
  match splitOnText (text "://") address with
  | some (scheme, _) => scheme.map lower = text "file"
  | none =>
    match address.findIdx? (· = 0x3A), address.findIdx? (· = 0x2F) with
    | some colon, some slash => slash < colon
    | some _, none => false
    | none, _ => true

/-- `shell_quote`. -/
def shellQuote (value : Bytes) : Bytes := Shell.quote value

/-- `Client::pack_arg`. -/
def packArg (binary operation : Bytes) : Bytes :=
  text "--" ++ operation ++ text "=" ++ shellQuote binary ++
    LOCAL_PACK_PINS.flatMap (fun pin ↦ text " -c " ++ pin) ++ text " " ++ operation

/-- The operation the far side runs. -/
def operationOf (push : Bool) : Bytes := if push then text "receive-pack" else text "upload-pack"

/-- `Client::transport_args`. -/
def transportArgs (binary address : Bytes) (push : Bool) : Bytes × Bytes :=
  let operation := operationOf push
  if isLocal address then (text "file", packArg binary operation)
  else (text "http:https:ssh", text "--" ++ operation ++ text "=git-" ++ operation)

/-! ### What git makes of them -/

/-- A byte of a scheme. -/
def schemeByte (byte : UInt8) : Bool :=
  (0x61 ≤ byte && byte ≤ 0x7A) || (0x41 ≤ byte && byte ≤ 0x5A) || (0x30 ≤ byte && byte ≤ 0x39) ||
    byte = 0x2B || byte = 0x2D || byte = 0x2E

/-- The scheme an address starts with, in front of a mark. -/
def schemeBefore (mark address : Bytes) : Option Bytes :=
  let scheme := address.takeWhile schemeByte
  if scheme ≠ [] ∧ mark <+: address.drop scheme.length then some scheme else none

/-- Where a transport goes: to a repository of this host, or to another host. -/
inductive Reach where
  | local_
  | network
  deriving DecidableEq, Repr

/-- Whether an address is local to git: a file URL, or no URL and without a colon in front of its
first slash. -/
def reachOf (address : Bytes) : Reach :=
  match schemeBefore (text "://") address with
  | some scheme => if scheme = text "file" then .local_ else .network
  | none => if 0x3A ∈ address.takeWhile (· ≠ 0x2F) then .network else .local_

/-- The transport git runs for an address, as `GIT_ALLOW_PROTOCOL` names it: a URL's scheme, `file`
for a local path, the scheme of a helper's address, and `ssh` for a host and a path. -/
def transportOf (address : Bytes) : Bytes :=
  match schemeBefore (text "://") address, reachOf address with
  | some scheme, _ =>
    if scheme = text "git+ssh" ∨ scheme = text "ssh+git" then text "ssh" else scheme
  | none, .local_ => text "file"
  | none, .network => (schemeBefore (text "::") address).getD (text "ssh")

/-- Where the transport goes that git runs for an address under `GIT_ALLOW_PROTOCOL`, if any. -/
def runs (allowed address : Bytes) : Option Reach :=
  if transportOf address ∈ allowed.splitOn 0x3A then some (reachOf address) else none

/-- The far command git reads from an option of an operation. -/
def packCommand (operation pack : Bytes) : Option Bytes :=
  (text "--" ++ operation ++ text "=").isPrefixOf? pack

/-- What an address starts with if its scheme stands in front of a mark. -/
theorem eq_append_of_schemeBefore {mark address scheme : Bytes}
    (hscheme : schemeBefore mark address = some scheme) :
    ∃ rest, address = scheme ++ (mark ++ rest) := by
  rw [schemeBefore] at hscheme
  split at hscheme
  · next hmark =>
    obtain rfl := Option.some.inj hscheme
    obtain ⟨rest, hrest⟩ := hmark.2
    have hinitial := List.prefix_append_drop (List.takeWhile_prefix (l := address) schemeByte)
    exact ⟨rest, by rw [hrest]; exact hinitial⟩
  · exact absurd hscheme (by simp)

/-- A local address takes the local transport. -/
theorem transportOf_of_local {address : Bytes} (hlocal : reachOf address = .local_) :
    transportOf address = text "file" := by
  rw [transportOf, hlocal]
  rw [reachOf] at hlocal
  cases hscheme : schemeBefore (text "://") address with
  | none => rfl
  | some scheme =>
    rw [hscheme] at hlocal
    by_cases hfile : scheme = text "file"
    · rw [hfile]
      exact if_neg (by decide)
    · exact absurd (hlocal.symm.trans (if_neg hfile)) (by decide)

/-- Only a colon starts the mark of a URL. -/
theorem splitOnText_cons {byte : UInt8} (hbyte : byte ≠ 0x3A) (rest : Bytes) :
    splitOnText (text "://") (byte :: rest) =
      (splitOnText (text "://") rest).map fun halves ↦ (byte :: halves.1, halves.2) := by
  have hmark : text "://" = [0x3A, 0x2F, 0x2F] := by decide
  have hnone : (text "://").isPrefixOf? (byte :: rest) = none := by
    simp [hmark, List.isPrefixOf?, Ne.symm hbyte]
  rw [splitOnText, hnone]

/-- The address of a helper named like the local transport is no local one to the client. -/
theorem isLocal_helper (rest : Bytes) : isLocal (text "file" ++ (text "::" ++ rest)) = false := by
  have hbytes : text "file" ++ (text "::" ++ rest) =
      0x66 :: 0x69 :: 0x6C :: 0x65 :: 0x3A :: 0x3A :: rest := rfl
  have hcolon : splitOnText (text "://") (0x3A :: 0x3A :: rest) =
      (splitOnText (text "://") (0x3A :: rest)).map fun halves ↦ (0x3A :: halves.1, halves.2) := rfl
  rw [hbytes, isLocal, splitOnText_cons (by decide), splitOnText_cons (by decide),
    splitOnText_cons (by decide), splitOnText_cons (by decide), hcolon]
  cases splitOnText (text "://") (0x3A :: rest) with
  | some halves =>
    -- what stands before the mark has a colon in it
    refine decide_eq_false fun hfile ↦ ?_
    have hlength := congrArg List.length hfile
    have hfour : (text "file").length = 4 := by decide
    simp [hfour] at hlength
  | none =>
    have hslash : (0x66 :: 0x69 :: 0x6C :: 0x65 :: 0x3A :: 0x3A :: rest).findIdx?
        (· = (0x2F : UInt8)) = (rest.findIdx? (· = 0x2F)).map (· + 6) := by
      have hnone : [0x66, 0x69, 0x6C, 0x65, 0x3A, 0x3A].findIdx? (· = (0x2F : UInt8)) = none := by
        decide
      change ([0x66, 0x69, 0x6C, 0x65, 0x3A, 0x3A] ++ rest).findIdx? (· = (0x2F : UInt8)) = _
      rw [List.findIdx?_append, hnone, Option.none_or]
      rfl
    have hfirst : (0x66 :: 0x69 :: 0x6C :: 0x65 :: 0x3A :: 0x3A :: rest).findIdx?
        (· = (0x3A : UInt8)) = some 4 := rfl
    simp only [Option.map_none, hfirst, hslash]
    cases rest.findIdx? (· = 0x2F) with
    | none => rfl
    | some slash => exact decide_eq_false (Nat.not_lt.mpr (Nat.le_add_left 4 (slash + 2)))

/-- The local transport takes no address to another host if the client has it for local. -/
theorem transportOf_of_network {address : Bytes} (hnetwork : reachOf address = .network)
    (hlocal : isLocal address = true) : transportOf address ≠ text "file" := by
  rw [transportOf, hnetwork]
  rw [reachOf] at hnetwork
  cases hscheme : schemeBefore (text "://") address with
  | some scheme =>
    rw [hscheme] at hnetwork
    by_cases hfile : scheme = text "file"
    · exact absurd ((if_pos hfile).symm.trans hnetwork) (by decide)
    · dsimp only
      split
      · decide
      · exact hfile
  | none =>
    intro hfile
    cases hhelper : schemeBefore (text "::") address with
    | none => exact absurd ((congrArg (Option.getD · _) hhelper).symm.trans hfile) (by decide)
    | some scheme =>
      obtain rfl : scheme = text "file" :=
        (congrArg (Option.getD · _) hhelper).symm.trans hfile
      obtain ⟨rest, rfl⟩ := eq_append_of_schemeBefore hhelper
      exact absurd ((isLocal_helper rest).symm.trans hlocal) Bool.false_ne_true

/-! ### What runs -/

/-- The words of the far side's command for a local transport. -/
def packWords (push : Bool) : List Shell.PlainWord :=
  [{ bytes := text "-c" }, { bytes := text "core.hooksPath=/dev/null" },
    { bytes := text "-c" }, { bytes := text "core.alternateRefsCommand=" },
    { bytes := text "-c" }, { bytes := text "core.fsmonitor=false" },
    { bytes := text "-c" }, { bytes := text "receive.denyCurrentBranch=refuse" },
    { bytes := operationOf push
      ne_nil := by cases push <;> decide
      plain := by cases push <;> exact List.all_eq_true.mp (by decide) }]

/-- The command a pack argument names for a local transport. -/
theorem packCommand_packArg (binary : Bytes) (push : Bool) :
    (packCommand (operationOf push) (packArg binary (operationOf push))).bind Shell.words =
      some (binary :: ((LOCAL_PACK_PINS.flatMap fun pin ↦ [text "-c", pin]) ++
        [operationOf push])) := by
  have hpack : packArg binary (operationOf push) =
      text "--" ++ operationOf push ++ text "=" ++
        (Shell.quote binary ++ (packWords push).flatMap fun plain ↦ 0x20 :: plain.bytes) := by
    have hwords : LOCAL_PACK_PINS.flatMap (fun pin ↦ text " -c " ++ pin) ++ text " " ++
        operationOf push = (packWords push).flatMap fun plain ↦ 0x20 :: plain.bytes := by
      cases push <;> decide
    rw [← hwords, packArg, shellQuote]
    simp only [List.append_assoc]
  rw [packCommand, hpack, List.isPrefixOf?_eq_some_iff_append_eq.mpr rfl, Option.bind_some,
    Shell.words_quote_append]
  cases push <;> rfl

/-- What git runs for an address under the protocols and the pack command it is given. -/
structure Pinned (binary address : Bytes) (push : Bool) : Prop where
  /-- A local transport starts this git under its pins. -/
  local_ : runs (transportArgs binary address push).1 address = some .local_ →
    (packCommand (operationOf push) (transportArgs binary address push).2).bind Shell.words =
      some (binary :: ((LOCAL_PACK_PINS.flatMap fun pin ↦ [text "-c", pin]) ++
        [operationOf push]))
  /-- A remote one starts git's own command. -/
  network : runs (transportArgs binary address push).1 address = some .network →
    packCommand (operationOf push) (transportArgs binary address push).2 =
      some (text "git-" ++ operationOf push)
  /-- None runs where the client has the address for what git does not. -/
  disagreed : ¬ (isLocal address = true ↔ reachOf address = .local_) →
    runs (transportArgs binary address push).1 address = none

/-- What runs goes where the address does, by a transport that is allowed. -/
theorem runs_eq_some_iff {allowed address : Bytes} {reach : Reach} :
    runs allowed address = some reach ↔
      transportOf address ∈ allowed.splitOn 0x3A ∧ reachOf address = reach := by
  rw [runs]
  split
  · next hallowed => simp [hallowed]
  · next hallowed => simp [hallowed]

/-- Every transport git runs is pinned. -/
theorem transport_pinned (binary address : Bytes) (push : Bool) : Pinned binary address push := by
  cases hlocal : isLocal address with
  | true =>
    have hargs : transportArgs binary address push =
        (text "file", packArg binary (operationOf push)) := by
      rw [transportArgs, if_pos hlocal]
    have hfile : (text "file").splitOn 0x3A = [text "file"] := by decide
    have hnever : reachOf address = .network →
        ∀ reach, runs (text "file") address ≠ some reach := by
      intro hnetwork reach hruns
      rw [runs_eq_some_iff, hfile, List.mem_singleton] at hruns
      exact transportOf_of_network hnetwork hlocal hruns.1
    refine ⟨fun hruns ↦ ?_, fun hruns ↦ ?_, fun hdisagreed ↦ ?_⟩
    · rw [hargs]
      exact packCommand_packArg binary push
    · rw [hargs] at hruns
      exact absurd hruns (hnever (runs_eq_some_iff.mp hruns).2 _)
    · rw [hargs]
      refine Option.eq_none_iff_forall_ne_some.mpr (hnever ?_)
      cases hreach : reachOf address with
      | local_ => exact absurd (iff_of_true hlocal hreach) hdisagreed
      | network => rfl
  | false =>
    have hargs : transportArgs binary address push = (text "http:https:ssh",
        text "--" ++ operationOf push ++ text "=git-" ++ operationOf push) := by
      rw [transportArgs, if_neg (by simp [hlocal])]
    have hnever : reachOf address = .local_ →
        ∀ reach, runs (text "http:https:ssh") address ≠ some reach := by
      intro hreach reach hruns
      rw [runs_eq_some_iff, transportOf_of_local hreach] at hruns
      exact absurd hruns.1 (by decide)
    refine ⟨fun hruns ↦ ?_, fun hruns ↦ ?_, fun hdisagreed ↦ ?_⟩
    · rw [hargs] at hruns
      exact absurd hruns (hnever (runs_eq_some_iff.mp hruns).2 _)
    · rw [hargs]
      cases push <;> decide
    · rw [hargs]
      refine Option.eq_none_iff_forall_ne_some.mpr (hnever ?_)
      cases hreach : reachOf address with
      | local_ => rfl
      | network => exact absurd (iff_of_false (by simp [hlocal]) (by simp [hreach])) hdisagreed

end OmniaBackends.Git
