import Mathlib.Data.List.Forall2
import Mathlib.Data.List.Induction
import Mathlib.Data.List.TakeWhile
import UckSmp.Lib.Numerals
import UckSmp.Membership.Nodes
import UckSmp.Memory.Region

/-!
# The daemon

`uckd.c`: the options are read one after the other as `getopt_long` returns them, the configuration is checked, and the
node, its remote nodes and its regions are passed to the kernel module. Numbers are read by `atoi` and `sscanf`, which
say nothing of a number that does not fit.

* `represents_parse`: what the options make of the configuration.
* `parse_iff`: which options are read to their end, and which write behind the end of an array.
* `carries_iff`: a descriptor is what its argument says exactly when the argument is in its range.
* `configures_iff`: when the daemon configures exactly what it was told, or refuses; `told_port_minus_one` has three
  inputs for which it does neither.
-/

namespace UckSmp.Daemon

open Lib.Numerals
open UckSmp.Membership (NodeInfo uckMaxNodes)
open UckSmp.Memory (RegionInfo uckMaxRegions)

/-! ## Code -/

/-- An option as `getopt_long` returns it; `unknown` is `'?'`. -/
inductive Opt
  | nodeId (arg : Text)
  | ip (arg : Text)
  | port (arg : Text)
  | remote (arg : Text)
  | createRegion (arg : Text)
  | joinRegion (arg : Text)
  | daemon
  | help
  | unknown
  deriving DecidableEq

/-- An `ioctl` with its argument. -/
inductive Ioctl
  | setNode (info : NodeInfo)
  | addNode (info : NodeInfo)
  | createRegion (info : RegionInfo)
  | joinRegion (info : RegionInfo)
  deriving DecidableEq

/-- What the system does: `inet_addr`, and whether the calls succeed, the `ioctl`s by their number. -/
structure Env where
  inetAddr : Text → UInt32
  mkdir : Bool
  openDev : Bool
  ioctl : Nat → Bool
  daemon : Bool

structure Region where
  info : RegionInfo
  isCreate : Bool
  deriving DecidableEq

/-- The variables of `main`, with as many elements of the arrays as are in use. -/
structure Conf where
  nodeId : Int32
  ipStr : Option Text
  port : Int32
  daemonMode : Bool
  remotes : List NodeInfo
  regions : List Region
  remotes_le : remotes.length ≤ uckMaxNodes
  regions_le : regions.length ≤ uckMaxRegions

def Conf.start : Conf := ⟨-1, none, 9999, false, [], [], Nat.zero_le _, Nat.zero_le _⟩

/-- Why the options are not read to their end: `main` returns, or it writes behind the end of `regions`. -/
inductive Stop
  | exit (code : Nat)
  | overrun (index : Nat)
  deriving DecidableEq

/-- A `':'` in the format of `sscanf`. -/
def colon : Text → Option Text
  | [] => none
  | c :: t => if c = ':' then some t else none

/-- `%63[^:]`. -/
def scanIp (t : Text) : Option (Text × Text) :=
  let ip := (t.takeWhile (· ≠ ':')).take 63
  if ip = [] then none else some (ip, t.drop ip.length)

/-- `parse_remote`. -/
def parseRemote (env : Env) (s : Text) : Option NodeInfo := do
  let (nodeId, s) ← scan s
  let (ip, s) ← scanIp (← colon s)
  let (port, _) ← scan (← colon s)
  some ⟨(toULong nodeId).toUInt32, env.inetAddr ip, (toLong port).toInt32.toUInt32.toUInt16, 0⟩

/-- `"%llu:%llu"`, with the rest of the text. -/
def scanRegion (s : Text) : Option (UInt64 × UInt64 × Text) := do
  let (rid, s) ← scan s
  let (sz, s) ← scan (← colon s)
  some (toULong rid, toULong sz, s)

/-- `"%llu:%llu:%u"`. -/
def scanJoin (s : Text) : Option RegionInfo := do
  let (rid, sz, s) ← scanRegion s
  let (owner, _) ← scan (← colon s)
  some ⟨rid, sz, (toULong owner).toUInt32⟩

/-- A remote node is written behind those in use. -/
def Conf.addRemote (c : Conf) (info : NodeInfo) (h : c.remotes.length < uckMaxNodes) : Conf :=
  { c with
    remotes := c.remotes ++ [info]
    remotes_le := List.length_append.trans_le h }

/-- A region is written behind those in use; the index is not checked. -/
def Conf.addRegion (c : Conf) (r : Region) : Except Stop Conf :=
  if h : c.regions.length < uckMaxRegions then
    .ok { c with
      regions := c.regions ++ [r]
      regions_le := List.length_append.trans_le h }
  else .error (.overrun c.regions.length)

/-- A round of the loop over the options. -/
def option (env : Env) (c : Conf) : Opt → Except Stop Conf
  | .nodeId arg => .ok { c with nodeId := atoi arg }
  | .ip arg => .ok { c with ipStr := some arg }
  | .port arg => .ok { c with port := atoi arg }
  | .remote arg =>
    if h : c.remotes.length < uckMaxNodes then
      match parseRemote env arg with
      | none => .error (.exit 1)
      | some info => .ok (c.addRemote info h)
    else .error (.exit 1)
  | .createRegion arg =>
    match scanRegion arg with
    | none => .error (.exit 1)
    | some (rid, sz, _) => c.addRegion ⟨⟨rid, sz, c.nodeId.toUInt32⟩, true⟩
  | .joinRegion arg =>
    match scanJoin arg with
    | none => .error (.exit 1)
    | some info => c.addRegion ⟨info, false⟩
  | .daemon => .ok { c with daemonMode := true }
  | .help => .error (.exit 0)
  | .unknown => .error (.exit 1)

/-- The loop over the options. -/
def parse (env : Env) (opts : List Opt) : Except Stop Conf := opts.foldlM (option env) .start

/-- The `ioctl` for a region; a region that is created belongs to the node. -/
def Region.ioctl (nodeId : Int32) (r : Region) : Ioctl :=
  if r.isCreate then .createRegion { r.info with ownerNode := nodeId.toUInt32 } else .joinRegion r.info

/-- The `ioctl`s of a configuration, in their order. -/
def ioctls (env : Env) (c : Conf) : List Ioctl :=
  .setNode ⟨c.nodeId.toUInt32, env.inetAddr (c.ipStr.getD []), c.port.toUInt32.toUInt16, 0⟩ ::
    (c.remotes.map .addNode ++ c.regions.map (Region.ioctl c.nodeId))

/-- The `ioctl`s are issued up to the first that fails; the result says whether all succeed. -/
def issue (env : Env) : (done : Nat) → List Ioctl → List Ioctl × Bool
  | _, [] => ([], true)
  | done, d :: ds =>
    if env.ioctl done then (d :: (issue env (done + 1) ds).1, (issue env (done + 1) ds).2) else ([d], false)

/-- How a run of the daemon goes, with the `ioctl`s that it has issued. -/
inductive Outcome
  | overrun (index : Nat)
  | exited (code : Nat) (issued : List Ioctl)
  | paused (issued : List Ioctl)
  deriving DecidableEq

/-- The end of `main`: the `ioctl`s, and `daemon` if it is asked for. -/
def configure (env : Env) (c : Conf) : Outcome :=
  if (issue env 0 (ioctls env c)).2 = false then .exited 1 (issue env 0 (ioctls env c)).1
  else if c.daemonMode = true ∧ env.daemon = false then .exited 1 (issue env 0 (ioctls env c)).1
  else .paused (issue env 0 (ioctls env c)).1

/-- `main`. -/
def main (env : Env) (opts : List Opt) : Outcome :=
  match parse env opts with
  | .error (.exit code) => .exited code []
  | .error (.overrun index) => .overrun index
  | .ok c =>
    if c.nodeId < 0 ∨ c.ipStr = none then .exited 1 []
    else if c.port = 0 ∨ 65535 < c.port then .exited 1 []
    else if uckMaxNodes ≤ c.nodeId.toUInt32.toNat then .exited 1 []
    else if c.remotes.length < 1 then .exited 1 []
    else if env.mkdir = false then .exited 1 []
    else if env.openDev = false then .exited 1 []
    else configure env c

/-! ## What the arguments say -/

/-- The arguments that one `ioctl` is about: a missing `--port` stands for the default. -/
inductive Source
  | node (nodeId port : Option Text)
  | remote (arg : Text)
  | create (arg : Text) (nodeId : Option Text)
  | join (arg : Text)
  deriving DecidableEq

/-- The numbers of an `ioctl`, as they are written or as they are passed. -/
inductive Numbers
  | setNode (id port : Int)
  | addNode (id port : Int)
  | create (id size owner : Int)
  | join (id size owner : Int)
  deriving DecidableEq

/-- The field up to the next `':'`, and what is behind it. -/
def cut (t : Text) : Option (Text × Text) :=
  match t.dropWhile (· ≠ ':') with
  | [] => none
  | _ :: rest => some (t.takeWhile (· ≠ ':'), rest)

/-- The numbers that are written in the arguments. -/
def Source.written : Source → Option Numbers
  | .node nodeId port => do
    let id ← numeral? (← nodeId)
    let port ← port.elim (some 9999) numeral?
    some (.setNode id port)
  | .remote arg => do
    let (id, arg) ← cut arg
    let (_, port) ← cut arg
    some (.addNode (← numeral? id) (← numeral? port))
  | .create arg nodeId => do
    let (id, size) ← cut arg
    some (.create (← numeral? id) (← numeral? size) (← numeral? (← nodeId)))
  | .join arg => do
    let (id, arg) ← cut arg
    let (size, owner) ← cut arg
    some (.join (← numeral? id) (← numeral? size) (← numeral? owner))

/-- The numbers that are passed. -/
def Ioctl.numbers : Ioctl → Numbers
  | .setNode x => .setNode x.nodeId.toNat x.port.toNat
  | .addNode x => .addNode x.nodeId.toNat x.port.toNat
  | .createRegion r => .create r.regionId.toNat r.size.toNat r.ownerNode.toNat
  | .joinRegion r => .join r.regionId.toNat r.size.toNat r.ownerNode.toNat

def Numbers.PortOk : Numbers → Prop
  | .setNode _ port | .addNode _ port => 1 ≤ port ∧ port ≤ 65535
  | _ => True

/-- A descriptor has the numbers of its arguments. -/
def Carries (src : Source) (d : Ioctl) : Prop := src.written = some d.numbers ∧ d.numbers.PortOk

/-- The arguments of the `ioctl`s: an option that is given again replaces the earlier one. -/
def nodeIdArg (opts : List Opt) : Option Text :=
  (opts.filterMap fun | .nodeId arg => some arg | _ => none).getLast?

def ipArg (opts : List Opt) : Option Text :=
  (opts.filterMap fun | .ip arg => some arg | _ => none).getLast?

def portArg (opts : List Opt) : Option Text :=
  (opts.filterMap fun | .port arg => some arg | _ => none).getLast?

def remoteArgs (opts : List Opt) : List Text := opts.filterMap fun | .remote arg => some arg | _ => none

/-- The arguments of the regions; `true` stands for a region that is created. -/
def regionArgs (opts : List Opt) : List (Text × Bool) :=
  opts.filterMap fun | .createRegion arg => some (arg, true) | .joinRegion arg => some (arg, false) | _ => none

def regionSource (nodeId : Option Text) (a : Text × Bool) : Source := if a.2 then .create a.1 nodeId else .join a.1

def sources (opts : List Opt) : List Source :=
  .node (nodeIdArg opts) (portArg opts) ::
    ((remoteArgs opts).map .remote ++ (regionArgs opts).map (regionSource (nodeIdArg opts)))

/-- The daemon ends with an error before any `ioctl`, or stays within its arrays and passes on what it was told. -/
def Configures (opts : List Opt) : Outcome → Prop
  | .overrun _ => False
  | .exited code issued =>
    code ≠ 0 ∧ issued = [] ∨ List.Forall₂ Carries ((sources opts).take issued.length) issued
  | .paused issued => List.Forall₂ Carries ((sources opts).take issued.length) issued

def Outcome.issued : Outcome → List Ioctl
  | .overrun _ => []
  | .exited _ issued | .paused issued => issued

/-- The numbers fit into the fields of the descriptor. -/
def Numbers.InRange : Numbers → Prop
  | .setNode id port | .addNode id port => (0 ≤ id ∧ id < UInt32.size) ∧ 1 ≤ port ∧ port ≤ 65535
  | .create id size owner | .join id size owner =>
    (0 ≤ id ∧ id < UInt64.size) ∧ (0 ≤ size ∧ size < UInt64.size) ∧ 0 ≤ owner ∧ owner < UInt32.size

/-- The arguments write numbers, and these fit. -/
def Source.Fits (src : Source) : Prop := ∃ n, src.written = some n ∧ n.InRange

/-! ## Which arguments get that far -/

/-- The option does not make `main` return, if there is room for what it says. -/
def Opt.Readable (env : Env) : Opt → Prop
  | .remote arg => (parseRemote env arg).isSome = true
  | .createRegion arg => (scanRegion arg).isSome = true
  | .joinRegion arg => (scanJoin arg).isSome = true
  | .help | .unknown => False
  | _ => True

/-- The options can be read, and there is room for what they say. -/
structure Accepted (env : Env) (opts : List Opt) : Prop where
  readable : ∀ o ∈ opts, o.Readable env
  remotes : (remoteArgs opts).length ≤ uckMaxNodes
  regions : (regionArgs opts).length ≤ uckMaxRegions

/-- Before any option that makes `main` return, there is one for a 65th region. -/
def Overfull (env : Env) (opts : List Opt) : Prop :=
  ∃ pre o post, opts = pre ++ o :: post ∧ Accepted env pre ∧ o.Readable env ∧
    (regionArgs pre).length = uckMaxRegions ∧ regionArgs [o] ≠ []

/-- The options are read, pass the checks behind the loop, and the system has the directory and the device. -/
structure Proceeds (env : Env) (opts : List Opt) : Prop where
  accepted : Accepted env opts
  nodeId : 0 ≤ (nodeIdArg opts).elim (-1) atoi ∧ ((nodeIdArg opts).elim (-1) atoi).toUInt32.toNat < uckMaxNodes
  ip : ipArg opts ≠ none
  port : (portArg opts).elim 9999 atoi ≠ 0 ∧ (portArg opts).elim 9999 atoi ≤ 65535
  remotes : remoteArgs opts ≠ []
  mkdir : env.mkdir = true
  openDev : env.openDev = true

variable {env : Env} {opts : List Opt} {c c' : Conf}

/-! ## Fields -/

theorem cut_eq_some {t a b : Text} (h : cut t = some (a, b)) : t = a ++ ':' :: b ∧ ':' ∉ a := by
  simp only [cut] at h
  split at h
  · cases h
  · rename_i c rest hdrop
    cases h
    have hc := List.head?_dropWhile_not (· ≠ ':') t
    rw [hdrop] at hc
    obtain rfl : c = ':' := by simpa using hc
    refine ⟨?_, fun hmem => ?_⟩
    · rw [← hdrop, List.takeWhile_append_dropWhile]
    · have hnot := List.mem_takeWhile_imp hmem
      simp at hnot

/-- A field that is a numeral is read up to the `':'` behind it. -/
theorem scan_field {t a b : Text} {v : Int} (hcut : cut t = some (a, b)) (ha : numeral? a = some v) :
    scan t = some (v, ':' :: b) := by
  obtain ⟨rfl, -⟩ := cut_eq_some hcut
  apply scan_append ha
  rintro _ ⟨⟩
  decide

/-- An address that ends at the `':'` behind it is the whole field. -/
theorem scanIp_field {t ip port a r s : Text} (hcut : cut t = some (ip, port)) (hip : scanIp t = some (a, r))
    (hcolon : colon r = some s) : s = port := by
  obtain ⟨rfl, hnot⟩ := cut_eq_some hcut
  have hall : ∀ x ∈ ip, decide (x ≠ ':') = true := fun x hx => decide_eq_true fun heq => hnot (heq ▸ hx)
  have hfield : (ip ++ ':' :: port).takeWhile (· ≠ ':') = ip := by
    rw [List.takeWhile_append_of_pos hall, List.takeWhile_cons, if_neg (by decide), List.append_nil]
  simp only [scanIp, hfield] at hip
  split at hip
  · cases hip
  cases hip
  by_cases hlen : ip.length ≤ 63
  · rw [List.take_of_length_le hlen, List.drop_left] at hcolon
    exact (Option.some.inj hcolon).symm
  · -- the address is cut off within the field
    rw [List.length_take_of_le (Nat.le_of_not_le hlen), List.drop_append_of_le_length (Nat.le_of_not_le hlen)] at hcolon
    cases hdrop : ip.drop 63 with
    | nil => exact absurd (List.drop_eq_nil_iff.1 hdrop) hlen
    | cons x rest =>
      have hx : x ∈ ip := List.mem_of_mem_drop (hdrop ▸ List.mem_cons_self)
      rw [hdrop, List.cons_append, colon, if_neg (of_decide_eq_true (hall x hx))] at hcolon
      cases hcolon

theorem parseRemote_fields {arg id t ip port : Text} {v p : Int} {info : NodeInfo} (hcut : cut arg = some (id, t))
    (hcut' : cut t = some (ip, port)) (hv : numeral? id = some v) (hp : numeral? port = some p)
    (h : parseRemote env arg = some info) :
    info.nodeId = (toULong v).toUInt32 ∧ info.port = (toLong p).toInt32.toUInt32.toUInt16 := by
  simp only [parseRemote, scan_field hcut hv, colon, Option.bind_eq_bind, Option.bind_some, if_true] at h
  obtain ⟨⟨a, r⟩, hip, h⟩ := Option.bind_eq_some_iff.1 h
  obtain ⟨s, hcolon, h⟩ := Option.bind_eq_some_iff.1 h
  obtain rfl := scanIp_field hcut' hip hcolon
  rw [scan_numeral hp] at h
  cases h
  exact ⟨rfl, rfl⟩

theorem scanRegion_field {arg id t rest : Text} {v w : Int} (hcut : cut arg = some (id, t)) (hv : numeral? id = some v)
    (hw : scan t = some (w, rest)) : scanRegion arg = some (toULong v, toULong w, rest) := by
  simp only [scanRegion, scan_field hcut hv, colon, Option.bind_eq_bind, Option.bind_some, if_true, hw]

/-! ## The options -/

/-- What is known of a region from its argument. -/
inductive RegionOf : Text × Bool → Region → Prop
  | create {arg rest : Text} {rid sz : UInt64} {owner : UInt32} (h : scanRegion arg = some (rid, sz, rest)) :
    RegionOf (arg, true) ⟨⟨rid, sz, owner⟩, true⟩
  | join {arg : Text} {info : RegionInfo} (h : scanJoin arg = some info) : RegionOf (arg, false) ⟨info, false⟩

/-- The configuration is what the options say. -/
structure Represents (env : Env) (opts : List Opt) (c : Conf) : Prop where
  nodeId : c.nodeId = (nodeIdArg opts).elim (-1) atoi
  ip : c.ipStr = ipArg opts
  port : c.port = (portArg opts).elim 9999 atoi
  remotes : List.Forall₂ (fun arg info => parseRemote env arg = some info) (remoteArgs opts) c.remotes
  regions : List.Forall₂ RegionOf (regionArgs opts) c.regions

theorem represents_start : Represents env [] .start := ⟨rfl, rfl, rfl, .nil, .nil⟩

/-- The arguments after one option more. -/
theorem represents_concat {o : Opt}
    (hnodeId : c'.nodeId = (match o with | .nodeId arg => some arg | _ => nodeIdArg opts).elim (-1) atoi)
    (hip : c'.ipStr = match o with | .ip arg => some arg | _ => ipArg opts)
    (hport : c'.port = (match o with | .port arg => some arg | _ => portArg opts).elim 9999 atoi)
    (hremotes : List.Forall₂ (fun arg info => parseRemote env arg = some info)
      (remoteArgs opts ++ match o with | .remote arg => [arg] | _ => []) c'.remotes)
    (hregions : List.Forall₂ RegionOf
      (regionArgs opts ++
        match o with | .createRegion arg => [(arg, true)] | .joinRegion arg => [(arg, false)] | _ => [])
      c'.regions) :
    Represents env (opts ++ [o]) c' := by
  constructor
  · rw [nodeIdArg, List.filterMap_append, List.getLast?_append]
    cases o <;> exact hnodeId
  · rw [ipArg, List.filterMap_append, List.getLast?_append]
    cases o <;> exact hip
  · rw [portArg, List.filterMap_append, List.getLast?_append]
    cases o <;> exact hport
  · rw [remoteArgs, List.filterMap_append]
    cases o <;> exact hremotes
  · rw [regionArgs, List.filterMap_append]
    cases o <;> exact hregions

theorem represents_addRegion (h : Represents env opts c) {r : Region} (ho : c.addRegion r = .ok c') {o : Opt}
    {a : Text × Bool} (hr : RegionOf a r)
    (hopt : o = .createRegion a.1 ∧ a.2 = true ∨ o = .joinRegion a.1 ∧ a.2 = false) :
    Represents env (opts ++ [o]) c' := by
  unfold Conf.addRegion at ho
  split at ho
  · cases ho
    have hregions := List.rel_append h.regions (.cons hr .nil)
    obtain ⟨arg, b⟩ := a
    obtain ⟨rfl, rfl⟩ | ⟨rfl, rfl⟩ := hopt
    · exact represents_concat h.nodeId h.ip h.port ((List.append_nil _).symm ▸ h.remotes) hregions
    · exact represents_concat h.nodeId h.ip h.port ((List.append_nil _).symm ▸ h.remotes) hregions
  · cases ho

/-- **One option more.** -/
theorem represents_option (h : Represents env opts c) {o : Opt} (ho : option env c o = .ok c') :
    Represents env (opts ++ [o]) c' := by
  have hremotes := (List.append_nil (remoteArgs opts)).symm ▸ h.remotes
  have hregions := (List.append_nil (regionArgs opts)).symm ▸ h.regions
  cases o with
  | nodeId arg =>
    cases ho
    exact represents_concat rfl h.ip h.port hremotes hregions
  | ip arg =>
    cases ho
    exact represents_concat h.nodeId rfl h.port hremotes hregions
  | port arg =>
    cases ho
    exact represents_concat h.nodeId h.ip rfl hremotes hregions
  | remote arg =>
    simp only [option] at ho
    split at ho
    · split at ho
      · cases ho
      · rename_i info hparse
        cases ho
        exact represents_concat h.nodeId h.ip h.port (List.rel_append h.remotes (.cons hparse .nil)) hregions
    · cases ho
  | createRegion arg =>
    simp only [option] at ho
    split at ho
    · cases ho
    · rename_i hscan
      exact represents_addRegion h ho (.create hscan) (.inl ⟨rfl, rfl⟩)
  | joinRegion arg =>
    simp only [option] at ho
    split at ho
    · cases ho
    · rename_i hscan
      exact represents_addRegion h ho (.join hscan) (.inr ⟨rfl, rfl⟩)
  | daemon =>
    cases ho
    exact represents_concat h.nodeId h.ip h.port hremotes hregions
  | help => cases ho
  | unknown => cases ho

theorem parse_concat (env : Env) (opts : List Opt) (o : Opt) :
    parse env (opts ++ [o]) = (parse env opts).bind fun c => option env c o := by
  simp only [parse, List.foldlM_append, List.foldlM_cons, List.foldlM_nil, bind_pure]
  rfl

theorem represents_parse (h : parse env opts = .ok c) : Represents env opts c := by
  induction opts using List.reverseRecOn generalizing c with
  | nil =>
    cases h
    exact represents_start
  | append_singleton opts o ih =>
    rw [parse_concat] at h
    cases hp : parse env opts with
    | error e =>
      rw [hp] at h
      cases h
    | ok c₀ =>
      rw [hp] at h
      exact represents_option (ih hp) h

theorem remoteArgs_append (opts opts' : List Opt) : remoteArgs (opts ++ opts') = remoteArgs opts ++ remoteArgs opts' :=
  List.filterMap_append

theorem regionArgs_append (opts opts' : List Opt) : regionArgs (opts ++ opts') = regionArgs opts ++ regionArgs opts' :=
  List.filterMap_append

/-- What becomes of an option: it is read if there is room for what it says. -/
inductive Reads (env : Env) (opts : List Opt) (o : Opt) : Except Stop Conf → Prop
  | read {c : Conf} (hr : o.Readable env) (hremotes : (remoteArgs (opts ++ [o])).length ≤ uckMaxNodes)
      (hregions : (regionArgs (opts ++ [o])).length ≤ uckMaxRegions) : Reads env opts o (.ok c)
  | overrun (hr : o.Readable env) (hfull : (regionArgs opts).length = uckMaxRegions) (ho : regionArgs [o] ≠ []) :
    Reads env opts o (.error (.overrun uckMaxRegions))
  | exit {code : Nat}
      (hno : ¬ o.Readable env ∨ uckMaxNodes < (remoteArgs (opts ++ [o])).length ∧ regionArgs [o] = []) :
    Reads env opts o (.error (.exit code))

section Reads

variable {o : Opt} (h : Represents env opts c)
include h

/-- An option that says nothing of remote nodes and regions. -/
theorem reads_plain (hr : o.Readable env) (hremote : remoteArgs [o] = []) (hregion : regionArgs [o] = []) {c' : Conf} :
    Reads env opts o (.ok c') := by
  refine .read hr ?_ ?_
  · rw [remoteArgs_append, hremote, List.append_nil, h.remotes.length_eq]
    exact c.remotes_le
  · rw [regionArgs_append, hregion, List.append_nil, h.regions.length_eq]
    exact c.regions_le

theorem reads_remote (arg : Text) : Reads env opts (.remote arg) (option env c (.remote arg)) := by
  have hlen : (remoteArgs (opts ++ [.remote arg])).length = c.remotes.length + 1 := by
    rw [remoteArgs_append, List.length_append, h.remotes.length_eq]
    rfl
  simp only [option]
  split
  · rename_i hroom
    cases hp : parseRemote env arg with
    | none => exact .exit (.inl (by simp [Opt.Readable, hp]))
    | some info =>
      refine .read (by simp [Opt.Readable, hp]) (hlen ▸ hroom) ?_
      rw [regionArgs_append, List.length_append, h.regions.length_eq]
      exact c.regions_le
  · rename_i hfull
    exact .exit (.inr ⟨hlen ▸ Nat.lt_succ_of_le (Nat.le_of_not_lt hfull), rfl⟩)

/-- A region that could be read. -/
theorem reads_addRegion (hr : o.Readable env) (hremote : remoteArgs [o] = []) {a : Text × Bool}
    (hregion : regionArgs [o] = [a]) (r : Region) : Reads env opts o (c.addRegion r) := by
  have hlen : (regionArgs opts).length = c.regions.length := h.regions.length_eq
  unfold Conf.addRegion
  split
  · rename_i hroom
    refine .read hr ?_ ?_
    · rw [remoteArgs_append, hremote, List.append_nil, h.remotes.length_eq]
      exact c.remotes_le
    · rw [regionArgs_append, hregion, List.length_append, hlen]
      exact hroom
  · rename_i hfull
    have hmax : c.regions.length = uckMaxRegions := Nat.le_antisymm c.regions_le (Nat.le_of_not_lt hfull)
    rw [hmax]
    exact .overrun hr (hlen.trans hmax) (by rw [hregion]; exact List.cons_ne_nil _ _)

theorem reads_option (o : Opt) : Reads env opts o (option env c o) := by
  cases o with
  | remote arg => exact reads_remote h arg
  | createRegion arg | joinRegion arg =>
    simp only [option]
    split
    · rename_i hscan
      exact .exit (.inl (by simp [Opt.Readable, hscan]))
    · rename_i hscan
      exact reads_addRegion h (by simp [Opt.Readable, hscan]) rfl rfl _
  | help => exact .exit (.inl fun hr => hr)
  | unknown => exact .exit (.inl fun hr => hr)
  | nodeId arg | ip arg | port arg | daemon =>
    refine reads_plain h ?_ rfl rfl
    trivial

end Reads

theorem accepted_concat_iff {o : Opt} : Accepted env (opts ++ [o]) ↔
    Accepted env opts ∧ o.Readable env ∧ (remoteArgs (opts ++ [o])).length ≤ uckMaxNodes ∧
      (regionArgs (opts ++ [o])).length ≤ uckMaxRegions := by
  constructor
  · rintro ⟨hreadable, hremotes, hregions⟩
    refine ⟨⟨fun o' ho' => hreadable o' (List.mem_append_left _ ho'), ?_, ?_⟩,
      hreadable o List.mem_concat_self, hremotes, hregions⟩
    · rw [remoteArgs_append, List.length_append] at hremotes
      omega
    · rw [regionArgs_append, List.length_append] at hregions
      omega
  · rintro ⟨h, ho, hremotes, hregions⟩
    refine ⟨fun o' ho' => ?_, hremotes, hregions⟩
    rcases List.mem_append.1 ho' with ho' | ho'
    · exact h.readable o' ho'
    · exact List.mem_singleton.1 ho' ▸ ho

/-- The options up to one that is too much are the same, whatever comes behind it. -/
theorem overfull_concat_iff {o : Opt} : Overfull env (opts ++ [o]) ↔ Overfull env opts ∨
    Accepted env opts ∧ o.Readable env ∧ (regionArgs opts).length = uckMaxRegions ∧ regionArgs [o] ≠ [] := by
  constructor
  · rintro ⟨pre, o', post, heq, hpre, ho', hfull, hregion⟩
    rcases List.eq_nil_or_concat post with rfl | ⟨post, o'', rfl⟩
    · obtain ⟨rfl, hlast⟩ := List.append_inj' heq rfl
      obtain rfl := (List.cons.inj hlast).1
      exact .inr ⟨hpre, ho', hfull, hregion⟩
    · rw [List.concat_eq_append, ← List.cons_append, ← List.append_assoc] at heq
      obtain ⟨rfl, -⟩ := List.append_inj' heq rfl
      exact .inl ⟨pre, o', post, rfl, hpre, ho', hfull, hregion⟩
  · rintro (⟨pre, o', post, rfl, hrest⟩ | ⟨hpre, hrest⟩)
    · exact ⟨pre, o', post ++ [o], by simp, hrest⟩
    · exact ⟨opts, o, [], rfl, hpre, hrest⟩

/-- **The loop over the options**: they are read to the end if they are accepted, and a region is written behind the end
of the array if there is one too many. -/
theorem parse_iff (env : Env) (opts : List Opt) : ((∃ c, parse env opts = .ok c) ↔ Accepted env opts) ∧
    ((∃ i, parse env opts = .error (.overrun i)) ↔ Overfull env opts) := by
  induction opts using List.reverseRecOn with
  | nil =>
    refine ⟨iff_of_true ⟨_, rfl⟩ ⟨by simp, Nat.zero_le _, Nat.zero_le _⟩, iff_of_false ?_ ?_⟩
    · rintro ⟨i, h⟩
      cases h
    · rintro ⟨pre, o, post, h, -⟩
      simp at h
  | append_singleton opts o ih =>
    rw [parse_concat, accepted_concat_iff, overfull_concat_iff, ← ih.1, ← ih.2]
    cases hp : parse env opts with
    | error e => simp [Except.bind]
    | ok c =>
      have hreads := reads_option (represents_parse hp) o
      simp only [Except.bind]
      generalize option env c o = r at hreads
      cases hreads with
      | read hr hremotes hregions =>
        have hroom : ¬ ((regionArgs opts).length = uckMaxRegions ∧ regionArgs [o] ≠ []) := by
          rintro ⟨hfull, ho⟩
          have hpos := List.length_pos_of_ne_nil ho
          rw [regionArgs_append, List.length_append] at hregions
          omega
        simp [hr, hremotes, hregions, hroom]
      | overrun hr hfull ho =>
        have hover : ¬ (regionArgs (opts ++ [o])).length ≤ uckMaxRegions := by
          have hpos := List.length_pos_of_ne_nil ho
          rw [regionArgs_append, List.length_append]
          omega
        simp [hr, hfull, ho, hover]
      | exit hno =>
        obtain hr | ⟨hmany, hregion⟩ := hno
        · simp [hr]
        · simp [Nat.not_le.2 hmany, hregion]

/-! ## The descriptors -/

/-- How the code makes a descriptor out of the arguments. -/
inductive Computed (env : Env) : Source → Ioctl → Prop
  | node {nodeId port : Option Text} {info : NodeInfo} (hid : info.nodeId = (nodeId.elim (-1) atoi).toUInt32)
      (hport : info.port = (port.elim 9999 atoi).toUInt32.toUInt16) :
    Computed env (.node nodeId port) (.setNode info)
  | remote {arg : Text} {info : NodeInfo} (h : parseRemote env arg = some info) :
    Computed env (.remote arg) (.addNode info)
  | create {arg rest : Text} {nodeId : Option Text} {info : RegionInfo}
      (h : scanRegion arg = some (info.regionId, info.size, rest))
      (howner : info.ownerNode = (nodeId.elim (-1) atoi).toUInt32) :
    Computed env (.create arg nodeId) (.createRegion info)
  | join {arg : Text} {info : RegionInfo} (h : scanJoin arg = some info) :
    Computed env (.join arg) (.joinRegion info)

theorem computed_ioctls (h : Represents env opts c) : List.Forall₂ (Computed env) (sources opts) (ioctls env c) := by
  refine .cons ?_ (List.rel_append ?_ ?_)
  · exact .node (congrArg Int32.toUInt32 h.nodeId) (congrArg (·.toUInt32.toUInt16) h.port)
  · rw [List.forall₂_map_left_iff, List.forall₂_map_right_iff]
    exact h.remotes.imp fun _ _ => .remote
  · rw [List.forall₂_map_left_iff, List.forall₂_map_right_iff]
    refine h.regions.imp ?_
    rintro a r hr
    cases hr with
    | create hscan => exact .create hscan (congrArg Int32.toUInt32 h.nodeId)
    | join hscan => exact .join hscan

theorem inRange_numbers {d : Ioctl} (h : d.numbers.PortOk) : d.numbers.InRange := by
  cases d with
  | setNode x | addNode x => exact ⟨⟨Int.natCast_nonneg _, Int.ofNat_lt.2 x.nodeId.toNat_lt_size⟩, h⟩
  | createRegion r | joinRegion r =>
    exact ⟨⟨Int.natCast_nonneg _, Int.ofNat_lt.2 r.regionId.toNat_lt_size⟩,
      ⟨Int.natCast_nonneg _, Int.ofNat_lt.2 r.size.toNat_lt_size⟩,
      Int.natCast_nonneg _, Int.ofNat_lt.2 r.ownerNode.toNat_lt_size⟩

theorem portOk_of_inRange {n : Numbers} (h : n.InRange) : n.PortOk := by
  cases n with
  | setNode id port | addNode id port => exact h.2
  | create | join => trivial

theorem toNat_atoi {t : Text} {v : Int} (h : numeral? t = some v) (h0 : 0 ≤ v) (hlt : v < UInt32.size) :
    ((atoi t).toUInt32.toNat : Int) = v := by
  rw [atoi, scan_numeral h]
  exact toNat_toLong_toInt32 h0 hlt

/-- A port in its range is kept by the conversion to 16 bits. -/
theorem toNat_port {x : Int32} {v : Int} (h : (x.toUInt32.toNat : Int) = v) (hv : v ≤ 65535) :
    (x.toUInt32.toUInt16.toNat : Int) = v := by
  rw [UInt32.toNat_toUInt16]
  omega

theorem lt_size_of_le {v : Int} (hv : v ≤ 65535) : v < UInt32.size := Int.lt_of_le_of_lt hv (by decide)

/-- Numbers in their ranges are passed as they are written. -/
theorem numbers_eq {src : Source} {d : Ioctl} (h : Computed env src d) {n : Numbers} (hn : src.written = some n)
    (hr : n.InRange) : d.numbers = n := by
  cases h with
  | @node nodeId port info hid' hport' =>
    simp only [Source.written, Option.bind_eq_bind, Option.bind_eq_some_iff] at hn
    obtain ⟨nodeId, rfl, id, hid, p, hp, ⟨⟩⟩ := hn
    obtain ⟨⟨h0, hlt⟩, h1, hle⟩ := hr
    have hport : ((port.elim 9999 atoi).toUInt32.toNat : Int) = p := by
      cases port with
      | none =>
        cases hp
        rfl
      | some port => exact toNat_atoi hp (Int.le_trans (by decide) h1) (lt_size_of_le hle)
    rw [Ioctl.numbers, hid', hport', Option.elim_some, toNat_atoi hid h0 hlt, toNat_port hport hle]
  | remote h =>
    simp only [Source.written, Option.bind_eq_bind, Option.bind_eq_some_iff] at hn
    obtain ⟨⟨id, t⟩, hcut, ⟨ip, port⟩, hcut', v, hv, p, hp, ⟨⟩⟩ := hn
    obtain ⟨⟨h0, hlt⟩, h1, hle⟩ := hr
    obtain ⟨hid, hport⟩ := parseRemote_fields hcut hcut' hv hp h
    have hport' := toNat_port (toNat_toLong_toInt32 (Int.le_trans (by decide) h1) (lt_size_of_le hle)) hle
    rw [Ioctl.numbers, hid, hport, hport', toNat_toULong_toUInt32 h0 hlt]
  | create h howner =>
    simp only [Source.written, Option.bind_eq_bind, Option.bind_eq_some_iff] at hn
    obtain ⟨⟨id, size⟩, hcut, v, hv, w, hw, nodeId, rfl, o, ho, ⟨⟩⟩ := hn
    obtain ⟨⟨hv0, hvlt⟩, ⟨hw0, hwlt⟩, ho0, holt⟩ := hr
    have hscan := h.symm.trans (scanRegion_field hcut hv (scan_numeral hw))
    simp only [Option.some.injEq, Prod.mk.injEq] at hscan
    rw [Ioctl.numbers, hscan.1, hscan.2.1, howner, toNat_toULong hv0 hvlt, toNat_toULong hw0 hwlt, Option.elim_some,
      toNat_atoi ho ho0 holt]
  | join h =>
    simp only [Source.written, Option.bind_eq_bind, Option.bind_eq_some_iff] at hn
    obtain ⟨⟨id, t⟩, hcut, ⟨size, owner⟩, hcut', v, hv, w, hw, o, ho, ⟨⟩⟩ := hn
    obtain ⟨⟨hv0, hvlt⟩, ⟨hw0, hwlt⟩, ho0, holt⟩ := hr
    simp only [scanJoin, scanRegion_field hcut hv (scan_field hcut' hw), colon, Option.bind_eq_bind, Option.bind_some,
      if_true, scan_numeral ho] at h
    cases h
    rw [Ioctl.numbers, toNat_toULong hv0 hvlt, toNat_toULong hw0 hwlt, toNat_toULong_toUInt32 ho0 holt]

theorem carries_iff {src : Source} {d : Ioctl} (h : Computed env src d) : Carries src d ↔ src.Fits := by
  constructor
  · rintro ⟨hwritten, hport⟩
    exact ⟨_, hwritten, inRange_numbers hport⟩
  · rintro ⟨n, hwritten, hr⟩
    obtain rfl := numbers_eq h hwritten hr
    exact ⟨hwritten, portOk_of_inRange hr⟩

theorem forall₂_carries_iff {srcs : List Source} {ds : List Ioctl} (h : List.Forall₂ (Computed env) srcs ds) :
    List.Forall₂ Carries srcs ds ↔ ∀ src ∈ srcs, src.Fits := by
  induction h with
  | nil => simp
  | cons h _ ih => rw [List.forall₂_cons, carries_iff h, ih, List.forall_mem_cons]

/-! ## The run -/

theorem issue_append (env : Env) (done : Nat) (ds : List Ioctl) : ∃ rest, ds = (issue env done ds).1 ++ rest := by
  induction ds generalizing done with
  | nil => exact ⟨[], rfl⟩
  | cons d ds ih =>
    rw [issue]
    split
    · obtain ⟨rest, hrest⟩ := ih (done + 1)
      exact ⟨rest, congrArg (d :: ·) hrest⟩
    · exact ⟨ds, rfl⟩

theorem issued_configure (env : Env) (c : Conf) : (configure env c).issued = (issue env 0 (ioctls env c)).1 := by
  unfold configure
  split
  · rfl
  · split <;> rfl

/-- The `ioctl`s that are issued: those before which none fails. -/
theorem lt_length_issue {done : Nat} {ds : List Ioctl} {i : Nat} : i < (issue env done ds).1.length ↔
    i < ds.length ∧ ∀ j < i, env.ioctl (done + j) = true := by
  induction ds generalizing done i with
  | nil => simp [issue]
  | cons d ds ih =>
    rw [issue]
    cases i with
    | zero => split <;> simp
    | succ i =>
      have hshift : (∀ j < i + 1, env.ioctl (done + j) = true) ↔
          env.ioctl done = true ∧ ∀ j < i, env.ioctl (done + 1 + j) = true := by
        constructor
        · intro h
          exact ⟨h 0 (Nat.succ_pos i), fun j hj => Nat.add_right_comm done j 1 ▸ h (j + 1) (Nat.succ_lt_succ hj)⟩
        · rintro ⟨h0, h⟩ (_ | j) hj
          · exact h0
          · exact Nat.add_right_comm done 1 j ▸ h j (Nat.lt_of_succ_lt_succ hj)
      rw [hshift]
      split
      · rename_i hok
        simp [ih, hok]
      · rename_i hfail
        simp [hfail]

/-- The checks behind the loop, `mkdir` and `open`. -/
structure Conf.Passes (env : Env) (c : Conf) : Prop where
  nodeId : 0 ≤ c.nodeId ∧ c.nodeId.toUInt32.toNat < uckMaxNodes
  ip : c.ipStr ≠ none
  port : c.port ≠ 0 ∧ c.port ≤ 65535
  remotes : c.remotes ≠ []
  mkdir : env.mkdir = true
  openDev : env.openDev = true

theorem main_of_passes (hc : parse env opts = .ok c) (h : c.Passes env) : main env opts = configure env c := by
  obtain ⟨⟨hid, hmax⟩, hip, ⟨hport, hle⟩, hremotes, hmkdir, hopen⟩ := h
  have hlen := List.length_pos_of_ne_nil hremotes
  rw [main, hc]
  dsimp only
  rw [if_neg (not_or.2 ⟨Int32.not_lt.2 hid, hip⟩), if_neg (not_or.2 ⟨hport, Int32.not_lt.2 hle⟩),
    if_neg (Nat.not_le.2 hmax), if_neg (Nat.not_lt.2 hlen), if_neg (by simp [hmkdir]), if_neg (by simp [hopen])]

theorem main_of_not_passes (hc : parse env opts = .ok c) (h : ¬ c.Passes env) : main env opts = .exited 1 [] := by
  rw [main, hc]
  dsimp only
  split
  · rfl
  next hid =>
    split
    · rfl
    next hport =>
      split
      · rfl
      next hmax =>
        split
        · rfl
        next hremotes =>
          split
          · rfl
          next hmkdir =>
            split
            · rfl
            next hopen =>
              rw [not_or] at hid hport
              exact absurd ⟨⟨Int32.not_lt.1 hid.1, Nat.not_le.1 hmax⟩, hid.2, ⟨hport.1, Int32.not_lt.1 hport.2⟩,
                List.ne_nil_of_length_pos (Nat.not_lt.1 hremotes), by simpa using hmkdir, by simpa using hopen⟩ h

/-- The checks are about what the options say. -/
theorem proceeds_iff (hc : parse env opts = .ok c) : Proceeds env opts ↔ c.Passes env := by
  have hrep := represents_parse hc
  have hremotes : remoteArgs opts ≠ [] ↔ c.remotes ≠ [] := by
    rw [← List.length_pos_iff, ← List.length_pos_iff, hrep.remotes.length_eq]
  constructor
  · rintro ⟨-, hid, hip, hport, hrem, hmkdir, hopen⟩
    exact ⟨hrep.nodeId ▸ hid, hrep.ip ▸ hip, hrep.port ▸ hport, hremotes.1 hrem, hmkdir, hopen⟩
  · rintro ⟨hid, hip, hport, hrem, hmkdir, hopen⟩
    exact ⟨(parse_iff env opts).1.1 ⟨c, hc⟩, hrep.nodeId ▸ hid, hrep.ip ▸ hip, hrep.port ▸ hport, hremotes.2 hrem,
      hmkdir, hopen⟩

/-- The `ioctl`s that are issued are the first of the configuration. -/
theorem computed_issued (hc : parse env opts = .ok c) :
    List.Forall₂ (Computed env) ((sources opts).take (issue env 0 (ioctls env c)).1.length)
      (issue env 0 (ioctls env c)).1 := by
  obtain ⟨rest, hrest⟩ := issue_append env 0 (ioctls env c)
  have hcomputed := computed_ioctls (represents_parse hc)
  rw [hrest] at hcomputed
  exact List.forall₂_take_append _ _ _ hcomputed

theorem configures_issued {o : Outcome} (ho : ∀ i, o ≠ .overrun i) :
    Configures opts o ↔ List.Forall₂ Carries ((sources opts).take o.issued.length) o.issued := by
  cases o with
  | overrun i => exact absurd rfl (ho i)
  | exited code issued =>
    refine ⟨?_, .inr⟩
    rintro (⟨-, rfl⟩ | h)
    · exact .nil
    · exact h
  | paused issued => exact Iff.rfl

/-- The descriptors are as they were told if the arguments of the `ioctl`s before which none fails fit. -/
theorem configures_configure (hc : parse env opts = .ok c) : Configures opts (configure env c) ↔
    ∀ i src, (sources opts)[i]? = some src → (∀ j < i, env.ioctl j = true) → src.Fits := by
  have hover : ∀ i, configure env c ≠ .overrun i := by
    intro i
    unfold configure
    split
    · exact Outcome.noConfusion
    · split <;> exact Outcome.noConfusion
  have hlen : (sources opts).length = (ioctls env c).length := (computed_ioctls (represents_parse hc)).length_eq
  rw [configures_issued hover, issued_configure, forall₂_carries_iff (computed_issued hc)]
  constructor
  · intro h i src hsrc hok
    refine h src (List.mem_of_getElem? (i := i) ?_)
    have hlt : i < (issue env 0 (ioctls env c)).1.length :=
      lt_length_issue.2 ⟨hlen ▸ (List.getElem?_eq_some_iff.1 hsrc).1, by simpa using hok⟩
    rw [List.getElem?_take_of_lt hlt, hsrc]
  · intro h src hsrc
    obtain ⟨i, hi⟩ := List.mem_iff_getElem?.1 hsrc
    rw [List.getElem?_take] at hi
    split at hi
    · rename_i hlt
      exact h i src hi (by simpa using (lt_length_issue.1 hlt).2)
    · cases hi

/-- **The daemon configures exactly what it was told, or refuses**, if and only if no 65th region comes before an option
that makes it refuse and, when it gets to its `ioctl`s, the arguments of those before which none fails write numbers
that fit. -/
theorem configures_iff (env : Env) (opts : List Opt) :
    Configures opts (main env opts) ↔ ¬ Overfull env opts ∧ (Proceeds env opts →
      ∀ i src, (sources opts)[i]? = some src → (∀ j < i, env.ioctl j = true) → src.Fits) := by
  obtain ⟨hok, hover⟩ := parse_iff env opts
  cases hp : parse env opts with
  | error e =>
    have hrefused : ¬ Accepted env opts := fun h => by
      obtain ⟨c, hc⟩ := hok.2 h
      rw [hp] at hc
      cases hc
    cases e with
    | exit code =>
      have hfits : ¬ Overfull env opts := fun h => by
        obtain ⟨i, hi⟩ := hover.2 h
        rw [hp] at hi
        cases hi
      have hmain : main env opts = .exited code [] := by rw [main, hp]
      rw [hmain]
      exact iff_of_true (.inr .nil) ⟨hfits, fun h => absurd h.accepted hrefused⟩
    | overrun i =>
      have hmain : main env opts = .overrun i := by rw [main, hp]
      rw [hmain]
      exact iff_of_false id fun h => h.1 (hover.1 ⟨i, hp⟩)
  | ok c =>
    have hfits : ¬ Overfull env opts := fun h => by
      obtain ⟨i, hi⟩ := hover.2 h
      rw [hp] at hi
      cases hi
    rw [proceeds_iff hp]
    by_cases hpass : c.Passes env
    · rw [main_of_passes hp hpass, configures_configure hp]
      simp [hfits, hpass]
    · rw [main_of_not_passes hp hpass]
      exact iff_of_true (.inl ⟨by decide, rfl⟩) ⟨hfits, fun h => absurd h hpass⟩

/-- A system on which every call succeeds. -/
def Env.willing : Env := ⟨fun _ => 0, true, true, fun _ => true, true⟩

/-- A node that is told the port -1 is set to the port 65535. -/
def minusOne : List Opt :=
  [.nodeId ['1'], .ip ['a'], .port ['-', '1'], .remote ['2', ':', 'b', ':', '7']]

/-- A remote node at the port 70000 is added at the port 4464. -/
def remote70000 : List Opt :=
  [.nodeId ['1'], .ip ['a'], .remote ['2', ':', 'b', ':', '7', '0', '0', '0', '0']]

/-- The 65th region is written behind the array. -/
def regions65 : List Opt := List.replicate 65 (.createRegion ['1', ':', '1'])

theorem told_port_minus_one :
    main .willing minusOne = .paused [.setNode ⟨1, 0, 65535, 0⟩, .addNode ⟨2, 0, 7, 0⟩] ∧
      ¬ Configures minusOne (main .willing minusOne) ∧ ¬ Configures remote70000 (main .willing remote70000) ∧
      main .willing regions65 = .overrun 64 := by
  have hlocal : main .willing minusOne = .paused [.setNode ⟨1, 0, 65535, 0⟩, .addNode ⟨2, 0, 7, 0⟩] := by
    decide +kernel
  have hremote : main .willing remote70000 = .paused [.setNode ⟨1, 0, 9999, 0⟩, .addNode ⟨2, 0, 4464, 0⟩] := by
    decide +kernel
  refine ⟨hlocal, ?_, ?_, by decide +kernel⟩
  · rw [hlocal]
    rintro (_ | ⟨hnode, -⟩)
    exact absurd hnode.1 (by decide)
  · rw [hremote]
    rintro (_ | ⟨-, _ | ⟨hnode, -⟩⟩)
    exact absurd hnode.1 (by decide)

end UckSmp.Daemon
