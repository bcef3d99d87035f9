import RaftStore.Consensus.Ledger

namespace RaftStore
namespace Consensus

/-!
# The invariant of the ledger is kept by every step

One theorem for each kind of step, and then the two consequences that the
protocol is for: the steps only add to the history, and a chosen prefix is part
of every later leader's log.

The conditional form of `agreed_held` and `restricted` is what makes them
inductive.  A node keeps an agreed prefix as long as the leaders it has
followed since carried it, and a candidate that got the node's vote is up to
date with the prefix under the same proviso.  The proviso only becomes harder
to meet as the run goes on; it is discharged at the end, by induction over the
terms.
-/

variable {ν ε : Type} {members : Finset ν} {termOf : ε -> Nat} {ledger : Ledger ν ε}

/-! ## Consequences of the invariant -/

/-- A rooted log is ordered, because the leader's log it is rooted in is. -/
theorem Sound.ordered_of_rooted (sound : Sound members termOf ledger) {log : List ε}
    (rooted : Rooted termOf ledger.reign log) : Ordered termOf log := by
  rcases eq_nil_or_endsIn termOf log with empty | ⟨init, entry, equal, _⟩
  · rw [empty]
    exact List.Pairwise.nil
  · rcases rooted init entry (by rw [equal]) with ⟨r, found, issued⟩
    rw [equal]
    exact (sound.lawful found).ordered.of_isPrefix issued

/-- The term of a reign is positive. -/
theorem Sound.reign_pos (sound : Sound members termOf ledger) {term : Nat} {r : Reign ν ε}
    (found : ledger.reign term = some r) : 0 < term :=
  sound.stand_pos (sound.lawful found).stands

/-- Every entry of a rooted log has a positive term. -/
theorem Sound.term_pos_of_rooted (sound : Sound members termOf ledger) {log : List ε}
    (rooted : Rooted termOf ledger.reign log) {entry : ε} (member : entry ∈ log) :
    0 < termOf entry := by
  rcases List.append_of_mem member with ⟨init, rest, equal⟩
  rcases rooted init entry ⟨rest, by rw [equal]; simp⟩ with ⟨r, found, _⟩
  exact sound.reign_pos found

/-- A leader of the current term has stood for election in it. -/
theorem Sound.leader_le (sound : Sound members termOf ledger) {term : Nat} {r : Reign ν ε}
    (found : ledger.reign term = some r) : term ≤ ledger.term r.leader :=
  sound.ballot_le (sound.stand_ballot (sound.lawful found).stands)

/-- **Election safety.**  A node with a majority of the ballots of a term is
the leader of that term, if the term has one. -/
theorem Sound.leader_unique [DecidableEq ν] (sound : Sound members termOf ledger) {term : Nat}
    {r : Reign ν ε} (found : ledger.reign term = some r) {candidate : ν} {electors : Finset ν}
    (majority : Majority members electors)
    (votes : forall node, node ∈ electors -> ledger.ballot node term = some candidate) :
    r.leader = candidate := by
  have lawful := sound.lawful found
  rcases lawful.elected.meet majority with ⟨node, first, second⟩
  have cast := votes node second
  rw [lawful.votes node first] at cast
  exact Option.some.inj cast

variable [DecidableEq ν] {actor : ν}

/-! ## The invariant, step by step -/

/-- A node that moves to a later term leaves every term it has led. -/
theorem Sound.current_of_later (sound : Sound members termOf ledger) {newTerm : Nat}
    (later : ledger.term actor < newTerm) {term : Nat} {r : Reign ν ε}
    (found : ledger.reign term = some r)
    (same : Function.update ledger.term actor newTerm r.leader = term) :
    ledger.log r.leader = r.log := by
  by_cases acting : r.leader = actor
  · have reached := sound.leader_le found
    rw [acting] at reached same
    rw [Function.update_self] at same
    omega
  · rw [Function.update_of_ne acting] at same
    exact (sound.lawful found).current same

theorem Sound.advance (sound : Sound members termOf ledger) {term : Nat}
    (later : ledger.term actor < term) :
    Sound members termOf { ledger with term := Function.update ledger.term actor term } where
  ballot_le cast := Nat.le_trans (sound.ballot_le cast) (le_update (Nat.le_of_lt later) _)
  ballot_stands := sound.ballot_stands
  stand_pos := sound.stand_pos
  stand_ballot := sound.stand_ballot
  stand_old := sound.stand_old
  stand_rooted := sound.stand_rooted
  log_bound node entry member :=
    Nat.le_trans (sound.log_bound node entry member) (le_update (Nat.le_of_lt later) _)
  log_rooted := sound.log_rooted
  lawful found := { sound.lawful found with current := sound.current_of_later later found }
  agreed_le agreed := Nat.le_trans (sound.agreed_le agreed) (le_update (Nat.le_of_lt later) _)
  agreed_closed := sound.agreed_closed
  agreed_issued := sound.agreed_issued
  agreed_held agreed carried := sound.agreed_held agreed
    (carried.mono (Nat.succ_le_succ (le_update (Nat.le_of_lt later) _)))
  restricted := sound.restricted

theorem Sound.campaign (sound : Sound members termOf ledger) :
    Sound members termOf { ledger with
      term := Function.update ledger.term actor (ledger.term actor + 1)
      ballot := enter ledger.ballot actor (ledger.term actor + 1) actor
      stand := enter ledger.stand actor (ledger.term actor + 1) (ledger.log actor) } := by
  have grows : forall node, ledger.term node ≤
      Function.update ledger.term actor (ledger.term actor + 1) node :=
    le_update (Nat.le_succ _)
  -- nothing was entered for the new term of the actor before
  have freshBallot : forall {node term candidate}, ledger.ballot node term = some candidate ->
      ¬ (node = actor ∧ term = ledger.term actor + 1) := by
    rintro node term candidate cast ⟨rfl, rfl⟩
    exact Nat.not_succ_le_self _ (sound.ballot_le cast)
  have freshStand : forall {node term platform}, ledger.stand node term = some platform ->
      ¬ (node = actor ∧ term = ledger.term actor + 1) :=
    fun stands => freshBallot (sound.stand_ballot stands)
  constructor
  case ballot_le =>
    intro node term candidate cast
    rcases enter_cases cast with ⟨rfl, rfl, _⟩ | before
    · exact Nat.le_of_eq (Function.update_self node (ledger.term node + 1) ledger.term).symm
    · exact Nat.le_trans (sound.ballot_le before) (grows node)
  case ballot_stands =>
    intro node term candidate cast
    rcases enter_cases cast with ⟨rfl, rfl, rfl⟩ | before
    · exact ⟨_, enter_self _ _ _ _⟩
    · rcases sound.ballot_stands before with ⟨platform, stands⟩
      exact ⟨platform, (enter_of_ne _ _ (freshStand stands)).trans stands⟩
  case stand_pos =>
    intro node term platform stands
    rcases enter_cases stands with ⟨_, rfl, _⟩ | before
    · exact Nat.succ_pos _
    · exact sound.stand_pos before
  case stand_ballot =>
    intro node term platform stands
    rcases enter_cases stands with ⟨rfl, rfl, _⟩ | before
    · exact enter_self _ _ _ _
    · exact (enter_of_ne _ _ (freshStand before)).trans (sound.stand_ballot before)
  case stand_old =>
    intro node term platform stands entry member
    rcases enter_cases stands with ⟨rfl, rfl, rfl⟩ | before
    · exact Nat.lt_succ_of_le (sound.log_bound node entry member)
    · exact sound.stand_old before entry member
  case stand_rooted =>
    intro node term platform stands
    rcases enter_cases stands with ⟨rfl, rfl, rfl⟩ | before
    · exact sound.log_rooted node
    · exact sound.stand_rooted before
  case log_bound =>
    intro node entry member
    exact Nat.le_trans (sound.log_bound node entry member) (grows node)
  case log_rooted => exact sound.log_rooted
  case lawful =>
    intro term r found
    have lawful := sound.lawful found
    refine { lawful with votes := ?_, stands := ?_, current := ?_ }
    · intro node member
      have cast := lawful.votes node member
      exact (enter_of_ne _ _ (freshBallot cast)).trans cast
    · exact (enter_of_ne _ _ (freshStand lawful.stands)).trans lawful.stands
    · exact sound.current_of_later (Nat.lt_succ_self _) found
  case agreed_le =>
    intro node term part agreed
    exact Nat.le_trans (sound.agreed_le agreed) (grows node)
  case agreed_closed => exact sound.agreed_closed
  case agreed_issued => exact sound.agreed_issued
  case agreed_held =>
    intro node term part agreed carried
    exact sound.agreed_held agreed (carried.mono (Nat.succ_le_succ (grows node)))
  case restricted =>
    intro node term part later candidate platform agreed ends below cast stands counted carried
    rcases enter_cases cast with ⟨rfl, rfl, rfl⟩ | before
    · -- the own vote: the node still holds the agreed prefix it stands with
      have own : ledger.log candidate = platform :=
        Option.some.inj ((enter_self _ _ _ _).symm.trans stands)
      rw [← own]
      exact (sound.ordered_of_rooted (sound.log_rooted candidate)).upToDate
        (sound.agreed_held agreed carried)
    · rcases sound.ballot_stands before with ⟨known, standing⟩
      have same := (enter_of_ne _ (ledger.log actor) (freshStand standing)).symm.trans stands
      exact sound.restricted agreed ends below before same counted carried

theorem Sound.grant (sound : Sound members termOf ledger) {candidate : ν} {platform : List ε}
    (free : forall other, ledger.ballot actor (ledger.term actor) = some other -> other = candidate)
    (stands : ledger.stand candidate (ledger.term actor) = some platform)
    (upToDate : UpToDate termOf platform (ledger.log actor)) :
    Sound members termOf { ledger with
      ballot := enter ledger.ballot actor (ledger.term actor) candidate } := by
  have kept : forall {node term other}, ledger.ballot node term = some other ->
      enter ledger.ballot actor (ledger.term actor) candidate node term = some other := by
    intro node term other cast
    by_cases same : node = actor ∧ term = ledger.term actor
    · rcases same with ⟨rfl, rfl⟩
      rw [enter_self, free other cast]
    · rw [enter_of_ne _ _ same, cast]
  constructor
  case ballot_le =>
    intro node term other cast
    rcases enter_cases cast with ⟨rfl, rfl, _⟩ | before
    · exact Nat.le_refl _
    · exact sound.ballot_le before
  case ballot_stands =>
    intro node term other cast
    rcases enter_cases cast with ⟨rfl, rfl, rfl⟩ | before
    · exact ⟨platform, stands⟩
    · exact sound.ballot_stands before
  case stand_pos => exact sound.stand_pos
  case stand_ballot => exact fun standing => kept (sound.stand_ballot standing)
  case stand_old => exact sound.stand_old
  case stand_rooted => exact sound.stand_rooted
  case log_bound => exact sound.log_bound
  case log_rooted => exact sound.log_rooted
  case lawful =>
    intro term r found
    exact { sound.lawful found with
      votes := fun node member => kept ((sound.lawful found).votes node member) }
  case agreed_le => exact sound.agreed_le
  case agreed_closed => exact sound.agreed_closed
  case agreed_issued => exact sound.agreed_issued
  case agreed_held => exact sound.agreed_held
  case restricted =>
    intro node term part later other known agreed ends below cast standing counted carried
    cases earlier : ledger.ballot node later with
    | some voted =>
        have same := Option.some.inj ((kept earlier).symm.trans cast)
        subst same
        exact sound.restricted agreed ends below earlier standing counted carried
    | none =>
        rcases enter_cases cast with ⟨rfl, rfl, rfl⟩ | before
        · -- a new vote counts only while the term has no leader
          have vacant : ledger.reign (ledger.term node) = none := by
            cases leads : ledger.reign (ledger.term node) with
            | none => rfl
            | some r =>
                have cast := (sound.lawful leads).votes node (counted r leads)
                rw [earlier] at cast
                cases cast
          have carriedNow : Carried ledger.reign term (ledger.term node + 1) part := by
            intro middle r above upTo found
            have different : middle ≠ ledger.term node := by
              rintro rfl
              rw [vacant] at found
              cases found
            exact carried middle r above (by omega) found
          have same := Option.some.inj (stands.symm.trans standing)
          subst same
          exact upToDate.trans ((sound.ordered_of_rooted (sound.log_rooted node)).upToDate
            (sound.agreed_held agreed carriedNow))
        · rw [earlier] at before
          cases before

omit [DecidableEq ν] in
theorem Sound.elect (sound : Sound members termOf ledger) {electors : Finset ν}
    (majority : Majority members electors)
    (votes : forall node, node ∈ electors -> ledger.ballot node (ledger.term actor) = some actor)
    (stands : ledger.stand actor (ledger.term actor) = some (ledger.log actor))
    (vacant : ledger.reign (ledger.term actor) = none) :
    Sound members termOf { ledger with
      reign := Function.update ledger.reign (ledger.term actor)
        (some ⟨actor, electors, ledger.log actor, ledger.log actor⟩) } := by
  have kept : forall {term r}, ledger.reign term = some r ->
      Function.update ledger.reign (ledger.term actor)
        (some ⟨actor, electors, ledger.log actor, ledger.log actor⟩) term = some r := by
    intro term r found
    have different : term ≠ ledger.term actor := by
      rintro rfl
      rw [vacant] at found
      cases found
    rw [Function.update_of_ne different, found]
  have rootedKept : forall {log}, Rooted termOf ledger.reign log -> Rooted termOf
      (Function.update ledger.reign (ledger.term actor)
        (some ⟨actor, electors, ledger.log actor, ledger.log actor⟩)) log :=
    fun rooted => rooted.mono (fun found => ⟨_, kept found, List.prefix_rfl⟩)
  constructor
  case ballot_le => exact sound.ballot_le
  case ballot_stands => exact sound.ballot_stands
  case stand_pos => exact sound.stand_pos
  case stand_ballot => exact sound.stand_ballot
  case stand_old => exact sound.stand_old
  case stand_rooted => exact fun standing => rootedKept (sound.stand_rooted standing)
  case log_bound => exact sound.log_bound
  case log_rooted => exact fun node => rootedKept (sound.log_rooted node)
  case lawful =>
    intro term r found
    by_cases now : term = ledger.term actor
    · subst term
      have same := Option.some.inj ((Function.update_self _ _ ledger.reign).symm.trans found)
      subst same
      exact {
        elected := majority
        votes := votes
        stands := stands
        begins := List.prefix_rfl
        bound := sound.log_bound actor
        ordered := sound.ordered_of_rooted (sound.log_rooted actor)
        rooted := rootedKept (sound.log_rooted actor)
        current := fun _ => rfl }
    · have lawful := sound.lawful ((Function.update_of_ne now _ _).symm.trans found)
      exact { lawful with rooted := rootedKept lawful.rooted }
  case agreed_le => exact sound.agreed_le
  case agreed_closed => exact sound.agreed_closed
  case agreed_issued =>
    intro node term part agreed
    rcases sound.agreed_issued agreed with ⟨r, found, issued⟩
    exact ⟨r, kept found, issued⟩
  case agreed_held =>
    intro node term part agreed carried
    exact sound.agreed_held agreed (carried.restrict (fun found => ⟨_, kept found, rfl⟩))
  case restricted =>
    intro node term part later candidate platform agreed ends below cast standing counted carried
    exact sound.restricted agreed ends below cast standing
      (fun r found => counted r (kept found)) (carried.restrict (fun found => ⟨_, kept found, rfl⟩))

/-! ### A leader adds an entry -/

/-- The reigns after the leader of the actor's term has added an entry. -/
abbrev extendReign (ledger : Ledger ν ε) (actor : ν) (r : Reign ν ε) (entry : ε) :
    Nat -> Option (Reign ν ε) :=
  Function.update ledger.reign (ledger.term actor) (some { r with log := r.log ++ [entry] })

section Extend

variable {r : Reign ν ε} {entry : ε}

omit [DecidableEq ν] in
/-- Every reign goes on, with the same leader, beginning and electors. -/
theorem extendReign_of_reign (leads : ledger.reign (ledger.term actor) = some r) {term : Nat}
    {r0 : Reign ν ε} (found : ledger.reign term = some r0) : Exists fun r1 =>
      extendReign ledger actor r entry term = some r1 ∧
      r0.log <+: r1.log ∧ r1.leader = r0.leader ∧ r1.initial = r0.initial ∧
      r1.electors = r0.electors := by
  by_cases now : term = ledger.term actor
  · subst term
    rw [leads] at found
    cases found
    exact ⟨_, Function.update_self _ _ _, List.prefix_append _ _, rfl, rfl, rfl⟩
  · refine ⟨r0, ?_, List.prefix_rfl, rfl, rfl, rfl⟩
    rw [extendReign, Function.update_of_ne now, found]

omit [DecidableEq ν] in
theorem Rooted.extendReign (leads : ledger.reign (ledger.term actor) = some r) {log : List ε}
    (rooted : Rooted termOf ledger.reign log) :
    Rooted termOf (extendReign ledger actor r entry) log := by
  apply rooted.mono
  intro term r0 found
  rcases extendReign_of_reign leads found with ⟨r1, present, grown, _⟩
  exact ⟨r1, present, grown⟩

omit [DecidableEq ν] in
theorem Carried.of_extendReign (leads : ledger.reign (ledger.term actor) = some r)
    {lower upper : Nat} {part : List ε}
    (carried : Carried (Consensus.extendReign ledger actor r entry) lower upper part) :
    Carried ledger.reign lower upper part := by
  apply carried.restrict
  intro term r0 found
  rcases extendReign_of_reign leads found with ⟨r1, present, _, _, same, _⟩
  exact ⟨r1, present, same⟩

omit [DecidableEq ν] in
/-- The log with the new entry is rooted, in the reign of its own leader. -/
theorem Sound.rooted_extend (sound : Sound members termOf ledger)
    (leads : ledger.reign (ledger.term actor) = some r)
    (current : termOf entry = ledger.term actor) :
    Rooted termOf (extendReign ledger actor r entry) (r.log ++ [entry]) :=
  ((sound.lawful leads).rooted.extendReign leads).concat
    ⟨_, by rw [current]; exact Function.update_self _ _ _, List.prefix_rfl⟩

omit [DecidableEq ν] in
theorem Sound.log_of_leader (sound : Sound members termOf ledger)
    (leads : ledger.reign (ledger.term actor) = some r) (own : r.leader = actor) :
    ledger.log actor = r.log := by
  rw [← own]
  exact (sound.lawful leads).current (by rw [own])

/-- The reigns are still lawful, the one that goes on included. -/
theorem Sound.lawful_extend (sound : Sound members termOf ledger)
    (leads : ledger.reign (ledger.term actor) = some r) (own : r.leader = actor)
    (current : termOf entry = ledger.term actor) {term : Nat} {r0 : Reign ν ε}
    (found : extendReign ledger actor r entry term = some r0) :
    Lawful members termOf { ledger with
      log := Function.update ledger.log actor (ledger.log actor ++ [entry])
      reign := extendReign ledger actor r entry } term r0 := by
  have lawfulNow := sound.lawful leads
  by_cases now : term = ledger.term actor
  · subst term
    have same := Option.some.inj ((Function.update_self _ _ ledger.reign).symm.trans found)
    subst same
    have bound : forall other, other ∈ r.log -> termOf other ≤ termOf entry := by
      intro other member
      rw [current]
      exact lawfulNow.bound other member
    exact {
      elected := lawfulNow.elected
      votes := lawfulNow.votes
      stands := lawfulNow.stands
      begins := lawfulNow.begins.trans (List.prefix_append _ _)
      bound := by
        intro other member
        rcases List.mem_append.mp member with before | added
        · exact lawfulNow.bound other before
        · rw [List.mem_singleton.mp added, current]
      ordered := lawfulNow.ordered.concat bound
      rooted := sound.rooted_extend leads current
      current := by
        intro _
        change Function.update ledger.log actor (ledger.log actor ++ [entry]) r.leader =
          r.log ++ [entry]
        rw [own, Function.update_self, sound.log_of_leader leads own] }
  · have lawful := sound.lawful ((Function.update_of_ne now _ _).symm.trans found)
    refine { lawful with rooted := lawful.rooted.extendReign leads, current := ?_ }
    intro same
    have different : r0.leader ≠ actor := by
      intro acting
      rw [acting] at same
      exact now same.symm
    exact (Function.update_of_ne different _ _).trans (lawful.current same)

theorem Sound.extend (sound : Sound members termOf ledger)
    (leads : ledger.reign (ledger.term actor) = some r) (own : r.leader = actor)
    (current : termOf entry = ledger.term actor) :
    Sound members termOf { ledger with
      log := Function.update ledger.log actor (ledger.log actor ++ [entry])
      reign := Function.update ledger.reign (ledger.term actor)
        (some { r with log := r.log ++ [entry] }) } := by
  constructor
  case ballot_le => exact sound.ballot_le
  case ballot_stands => exact sound.ballot_stands
  case stand_pos => exact sound.stand_pos
  case stand_ballot => exact sound.stand_ballot
  case stand_old => exact sound.stand_old
  case stand_rooted => exact fun standing => (sound.stand_rooted standing).extendReign leads
  case log_bound =>
    intro node other member
    by_cases acting : node = actor
    · subst node
      change other ∈ Function.update ledger.log actor (ledger.log actor ++ [entry]) actor at member
      rw [Function.update_self] at member
      rcases List.mem_append.mp member with before | added
      · exact sound.log_bound actor other before
      · rw [List.mem_singleton.mp added, current]
    · change other ∈ Function.update ledger.log actor (ledger.log actor ++ [entry]) node at member
      rw [Function.update_of_ne acting] at member
      exact sound.log_bound node other member
  case log_rooted =>
    intro node
    by_cases acting : node = actor
    · subst node
      change Rooted termOf _ (Function.update ledger.log actor (ledger.log actor ++ [entry]) actor)
      rw [Function.update_self, sound.log_of_leader leads own]
      exact sound.rooted_extend leads current
    · change Rooted termOf _ (Function.update ledger.log actor (ledger.log actor ++ [entry]) node)
      rw [Function.update_of_ne acting]
      exact (sound.log_rooted node).extendReign leads
  case lawful => exact fun found => sound.lawful_extend leads own current found
  case agreed_le => exact sound.agreed_le
  case agreed_closed => exact sound.agreed_closed
  case agreed_issued =>
    intro node term part agreed
    rcases sound.agreed_issued agreed with ⟨r0, found, issued⟩
    rcases extendReign_of_reign leads found with ⟨r1, present, grown, _⟩
    exact ⟨r1, present, issued.trans grown⟩
  case agreed_held =>
    intro node term part agreed carried
    have held := sound.agreed_held agreed (carried.of_extendReign leads)
    change part <+: Function.update ledger.log actor (ledger.log actor ++ [entry]) node
    by_cases acting : node = actor
    · subst node
      rw [Function.update_self]
      exact held.trans (List.prefix_append _ _)
    · rw [Function.update_of_ne acting]
      exact held
  case restricted =>
    intro node term part later candidate platform agreed ends below cast standing counted carried
    refine sound.restricted agreed ends below cast standing ?_ (carried.of_extendReign leads)
    intro r0 found
    rcases extendReign_of_reign leads found with ⟨r1, present, _, _, _, same⟩
    rw [← same]
    exact counted r1 present

end Extend

theorem Sound.accept [DecidableEq ε] (sound : Sound members termOf ledger) {r : Reign ν ε}
    {issued : List ε} (leads : ledger.reign (ledger.term actor) = some r)
    (issues : issued <+: r.log) :
    Sound members termOf { ledger with
      log := Function.update ledger.log actor (overlay issued (ledger.log actor)) } := by
  have lawfulNow := sound.lawful leads
  constructor
  case ballot_le => exact sound.ballot_le
  case ballot_stands => exact sound.ballot_stands
  case stand_pos => exact sound.stand_pos
  case stand_ballot => exact sound.stand_ballot
  case stand_old => exact sound.stand_old
  case stand_rooted => exact sound.stand_rooted
  case log_bound =>
    intro node entry member
    by_cases acting : node = actor
    · subst node
      change entry ∈ Function.update ledger.log actor _ actor at member
      rw [Function.update_self] at member
      rcases mem_overlay member with taken | before
      · exact lawfulNow.bound entry (issues.subset taken)
      · exact sound.log_bound actor entry before
    · change entry ∈ Function.update ledger.log actor _ node at member
      rw [Function.update_of_ne acting] at member
      exact sound.log_bound node entry member
  case log_rooted =>
    intro node
    by_cases acting : node = actor
    · subst node
      change Rooted termOf _ (Function.update ledger.log actor _ actor)
      rw [Function.update_self, overlay]
      split
      · exact sound.log_rooted actor
      · exact lawfulNow.rooted.of_isPrefix issues
    · change Rooted termOf _ (Function.update ledger.log actor _ node)
      rw [Function.update_of_ne acting]
      exact sound.log_rooted node
  case lawful =>
    intro term r0 found
    have lawful := sound.lawful found
    refine { lawful with current := ?_ }
    intro same
    change Function.update ledger.log actor _ r0.leader = r0.log
    by_cases acting : r0.leader = actor
    · -- the leader accepts its own entries without any change
      rw [acting] at same
      change ledger.term actor = term at same
      subst term
      have reigning := Option.some.inj (leads.symm.trans found)
      subst reigning
      have ownLog := lawful.current (by rw [acting])
      rw [acting] at ownLog ⊢
      rw [Function.update_self, ownLog, overlay, if_pos issues]
    · rw [Function.update_of_ne acting]
      exact lawful.current same
  case agreed_le => exact sound.agreed_le
  case agreed_closed => exact sound.agreed_closed
  case agreed_issued => exact sound.agreed_issued
  case agreed_held =>
    intro node term part agreed carried
    change part <+: Function.update ledger.log actor _ node
    have held := sound.agreed_held agreed carried
    by_cases acting : node = actor
    · subst node
      rw [Function.update_self]
      have shared : part <+: r.log := by
        rcases Nat.lt_or_eq_of_le (sound.agreed_le agreed) with before | now
        · exact (carried _ r before (Nat.lt_succ_self _) leads).trans lawfulNow.begins
        · rcases sound.agreed_issued agreed with ⟨r0, found, partIssued⟩
          rw [now, leads] at found
          cases found
          exact partIssued
      exact isPrefix_overlay_of_common issues shared held
    · rw [Function.update_of_ne acting]
      exact held
  case restricted => exact sound.restricted

omit [DecidableEq ν] in
theorem Sound.agree (sound : Sound members termOf ledger) :
    Sound members termOf { ledger with
      agreed := fun node term part => ledger.agreed node term part ∨
        (term = ledger.term node ∧ Holds ledger node part) } where
  ballot_le := sound.ballot_le
  ballot_stands := sound.ballot_stands
  stand_pos := sound.stand_pos
  stand_ballot := sound.stand_ballot
  stand_old := sound.stand_old
  stand_rooted := sound.stand_rooted
  log_bound := sound.log_bound
  log_rooted := sound.log_rooted
  lawful found := { sound.lawful found with }
  agreed_le agreed := by
    rcases agreed with before | ⟨rfl, _⟩
    · exact sound.agreed_le before
    · exact Nat.le_refl _
  agreed_closed agreed begins := by
    rcases agreed with before | ⟨same, holds⟩
    · exact Or.inl (sound.agreed_closed before begins)
    · exact Or.inr ⟨same, holds.of_isPrefix begins⟩
  agreed_issued agreed := by
    rcases agreed with before | ⟨rfl, _, issued⟩
    · exact sound.agreed_issued before
    · exact issued
  agreed_held agreed carried := by
    rcases agreed with before | ⟨rfl, held, _⟩
    · exact sound.agreed_held before carried
    · exact held
  restricted agreed ends below cast standing counted carried := by
    rcases agreed with before | ⟨rfl, _⟩
    · exact sound.restricted before ends below cast standing counted carried
    · exact absurd (sound.ballot_le cast) (Nat.not_le_of_lt below)

/-- Every step keeps the invariant. -/
theorem Sound.step [DecidableEq ε] (sound : Sound members termOf ledger) {after : Ledger ν ε}
    (step : Step members termOf actor ledger after) : Sound members termOf after := by
  cases step with
  | advance term later => exact sound.advance later
  | campaign => exact sound.campaign
  | grant candidate platform free stands upToDate => exact sound.grant free stands upToDate
  | elect electors majority votes stands vacant => exact sound.elect majority votes stands vacant
  | extend r entry leads own current => exact sound.extend leads own current
  | accept r issued leads issues => exact sound.accept leads issues
  | agree => exact sound.agree

/-! ## What the steps of one node leave as it was -/

/-- The history only grows. -/
structure Extends (before after : Ledger ν ε) : Prop where
  term_le : forall node, before.term node ≤ after.term node
  ballot : forall {node term candidate}, before.ballot node term = some candidate ->
    after.ballot node term = some candidate
  stand : forall {node term platform}, before.stand node term = some platform ->
    after.stand node term = some platform
  reign : forall {term r}, before.reign term = some r -> Exists fun r' =>
    after.reign term = some r' ∧ r'.leader = r.leader ∧ r'.initial = r.initial ∧ r.log <+: r'.log
  agreed : forall {node term part}, before.agreed node term part -> after.agreed node term part

/-- The steps of one node add to the history and touch the own row of the
ledger only. -/
structure Moves (actor : ν) (before after : Ledger ν ε) : Prop extends Extends before after where
  term_eq : forall {node}, node ≠ actor -> after.term node = before.term node
  log_eq : forall {node}, node ≠ actor -> after.log node = before.log node
  ballot_eq : forall {node}, node ≠ actor -> after.ballot node = before.ballot node
  origin : forall {term r'}, after.reign term = some r' -> r'.leader ≠ actor ->
    before.reign term = some r'

omit [DecidableEq ν] in
theorem Extends.refl (ledger : Ledger ν ε) : Extends ledger ledger where
  term_le _ := Nat.le_refl _
  ballot cast := cast
  stand standing := standing
  reign found := ⟨_, found, rfl, rfl, List.prefix_rfl⟩
  agreed held := held

omit [DecidableEq ν] in
theorem Extends.trans {before middle after : Ledger ν ε} (first : Extends before middle)
    (second : Extends middle after) : Extends before after where
  term_le node := Nat.le_trans (first.term_le node) (second.term_le node)
  ballot cast := second.ballot (first.ballot cast)
  stand standing := second.stand (first.stand standing)
  reign found := by
    rcases first.reign found with ⟨r1, found1, leader1, initial1, log1⟩
    rcases second.reign found1 with ⟨r2, found2, leader2, initial2, log2⟩
    exact ⟨r2, found2, leader2.trans leader1, initial2.trans initial1, log1.trans log2⟩
  agreed held := second.agreed (first.agreed held)

omit [DecidableEq ν] in
theorem Moves.refl (actor : ν) (ledger : Ledger ν ε) : Moves actor ledger ledger where
  toExtends := .refl ledger
  term_eq _ := rfl
  log_eq _ := rfl
  ballot_eq _ := rfl
  origin found _ := found

omit [DecidableEq ν] in
theorem Moves.trans {before middle after : Ledger ν ε} (first : Moves actor before middle)
    (second : Moves actor middle after) : Moves actor before after where
  toExtends := first.toExtends.trans second.toExtends
  term_eq different := (second.term_eq different).trans (first.term_eq different)
  log_eq different := (second.log_eq different).trans (first.log_eq different)
  ballot_eq different := (second.ballot_eq different).trans (first.ballot_eq different)
  origin found different := first.origin (second.origin found different) different

/-- A step of a node moves that node only. -/
theorem Step.moves [DecidableEq ε] (sound : Sound members termOf ledger) {after : Ledger ν ε}
    (step : Step members termOf actor ledger after) : Moves actor ledger after := by
  have unchanged := Moves.refl actor ledger
  cases step with
  | advance term later =>
      exact { unchanged with
        term_le := le_update (Nat.le_of_lt later)
        term_eq := fun different => Function.update_of_ne different _ _ }
  | campaign =>
      have fresh : forall {node term candidate}, ledger.ballot node term = some candidate ->
          ¬ (node = actor ∧ term = ledger.term actor + 1) := by
        rintro node term candidate cast ⟨rfl, rfl⟩
        exact Nat.not_succ_le_self _ (sound.ballot_le cast)
      exact { unchanged with
        term_le := le_update (Nat.le_succ _)
        term_eq := fun different => Function.update_of_ne different _ _
        ballot := fun cast => (enter_of_ne _ _ (fresh cast)).trans cast
        stand := fun standing =>
          (enter_of_ne _ _ (fresh (sound.stand_ballot standing))).trans standing
        ballot_eq := fun different => Function.update_of_ne different _ _ }
  | grant candidate platform free stands upToDate =>
      refine { unchanged with
        ballot := ?_
        ballot_eq := fun different => Function.update_of_ne different _ _ }
      intro node term other cast
      by_cases same : node = actor ∧ term = ledger.term actor
      · rcases same with ⟨rfl, rfl⟩
        rw [free other cast]
        exact enter_self _ _ _ _
      · exact (enter_of_ne _ _ same).trans cast
  | elect electors majority votes stands vacant =>
      refine { unchanged with reign := ?_, origin := ?_ }
      · intro term r found
        have different : term ≠ ledger.term actor := by
          rintro rfl
          rw [vacant] at found
          cases found
        exact ⟨r, (Function.update_of_ne different _ _).trans found, rfl, rfl, List.prefix_rfl⟩
      · intro term r found different
        by_cases now : term = ledger.term actor
        · subst term
          have same := Option.some.inj ((Function.update_self _ _ ledger.reign).symm.trans found)
          subst same
          exact absurd rfl different
        · exact (Function.update_of_ne now _ _).symm.trans found
  | extend r entry leads own current =>
      refine { unchanged with
        reign := ?_
        log_eq := fun different => Function.update_of_ne different _ _
        origin := ?_ }
      · intro term r0 found
        rcases extendReign_of_reign leads found with ⟨r1, present, grown, leader, initial, _⟩
        exact ⟨r1, present, leader, initial, grown⟩
      · intro term r0 found different
        by_cases now : term = ledger.term actor
        · subst term
          have same := Option.some.inj ((Function.update_self _ _ ledger.reign).symm.trans found)
          subst same
          exact absurd own different
        · exact (Function.update_of_ne now _ _).symm.trans found
  | accept r issued leads issues =>
      exact { unchanged with log_eq := fun different => Function.update_of_ne different _ _ }
  | agree => exact { unchanged with agreed := Or.inl }

/-- Any number of steps of one node. -/
def Steps [DecidableEq ε] (members : Finset ν) (termOf : ε -> Nat) (actor : ν) :
    Ledger ν ε -> Ledger ν ε -> Prop :=
  Relation.ReflTransGen (Step members termOf actor)

theorem Steps.sound [DecidableEq ε] {after : Ledger ν ε}
    (steps : Steps members termOf actor ledger after) (sound : Sound members termOf ledger) :
    Sound members termOf after := by
  induction steps with
  | refl => exact sound
  | tail _ step inductionHypothesis => exact inductionHypothesis.step step

theorem Steps.moves [DecidableEq ε] {after : Ledger ν ε}
    (steps : Steps members termOf actor ledger after) (sound : Sound members termOf ledger) :
    Moves actor ledger after := by
  induction steps with
  | refl => exact .refl actor ledger
  | tail earlier step inductionHypothesis =>
      exact inductionHypothesis.trans (step.moves (Steps.sound earlier sound))

/-- A step within a term of which the actor is the leader appends entries of that
term to its log and changes nothing in it. -/
theorem Step.leader_appends [DecidableEq ε] (sound : Sound members termOf ledger)
    {after : Ledger ν ε} (step : Step members termOf actor ledger after) {r : Reign ν ε}
    (leads : ledger.reign (ledger.term actor) = some r) (own : r.leader = actor)
    (same : after.term actor = ledger.term actor) :
    Exists fun added => after.log actor = ledger.log actor ++ added ∧
      forall entry, entry ∈ added -> termOf entry = ledger.term actor := by
  have nothing : Exists fun added => ledger.log actor = ledger.log actor ++ added ∧
      forall entry, entry ∈ added -> termOf entry = ledger.term actor :=
    ⟨[], (List.append_nil _).symm, fun _ listed => (List.not_mem_nil listed).elim⟩
  cases step with
  | advance term later =>
      have raised : term = ledger.term actor := (Function.update_self _ _ _).symm.trans same
      exact absurd raised (Nat.ne_of_gt later)
  | campaign =>
      have raised : ledger.term actor + 1 = ledger.term actor :=
        (Function.update_self _ _ ledger.term).symm.trans same
      exact absurd raised (Nat.succ_ne_self _)
  | grant candidate platform free stands upToDate => exact nothing
  | elect electors majority votes stands vacant => exact nothing
  | extend other entry _ _ current =>
      refine ⟨[entry], Function.update_self _ _ _, fun added listed => ?_⟩
      rw [List.mem_singleton.mp listed]
      exact current
  | accept other issued found issues =>
      rw [leads] at found
      cases found
      have held : issued <+: ledger.log actor := by
        rw [sound.log_of_leader leads own]
        exact issues
      have kept : overlay issued (ledger.log actor) = ledger.log actor := if_pos held
      simp only [Function.update_self, kept]
      exact nothing
  | agree => exact nothing

/-- A leader only appends entries of its own term to its log, as long as it is in
that term. -/
theorem Steps.leader_appends [DecidableEq ε] {after : Ledger ν ε}
    (steps : Steps members termOf actor ledger after) (sound : Sound members termOf ledger)
    {r : Reign ν ε} (leads : ledger.reign (ledger.term actor) = some r) (own : r.leader = actor)
    (same : after.term actor = ledger.term actor) :
    Exists fun added => after.log actor = ledger.log actor ++ added ∧
      forall entry, entry ∈ added -> termOf entry = ledger.term actor := by
  induction steps with
  | refl => exact ⟨[], (List.append_nil _).symm, fun _ listed => (List.not_mem_nil listed).elim⟩
  | @tail middle last earlier step inductionHypothesis =>
      have soundMiddle : Sound members termOf middle := Steps.sound earlier sound
      have before : Moves actor ledger middle := Steps.moves earlier sound
      have behind := (step.moves soundMiddle).term_le actor
      have between : middle.term actor = ledger.term actor :=
        Nat.le_antisymm (behind.trans (Nat.le_of_eq same)) (before.term_le actor)
      rcases inductionHypothesis between with ⟨first, firstLog, firstTerms⟩
      rcases before.reign leads with ⟨r', found, leader, _⟩
      rcases step.leader_appends soundMiddle (by rw [between]; exact found) (leader.trans own)
        (same.trans between.symm) with ⟨second, secondLog, secondTerms⟩
      refine ⟨first ++ second, by rw [secondLog, firstLog, List.append_assoc], ?_⟩
      intro entry listed
      rcases List.mem_append.mp listed with old | new
      · exact firstTerms entry old
      · rw [secondTerms entry new, between]

/-! ## The beginning -/

/-- The ledger before anything has happened. -/
def Ledger.blank : Ledger ν ε where
  term _ := 0
  ballot _ _ := none
  stand _ _ := none
  log _ := []
  reign _ := none
  agreed _ _ _ := False

omit [DecidableEq ν] in
theorem sound_blank : Sound members termOf (Ledger.blank : Ledger ν ε) where
  ballot_le cast := by cases cast
  ballot_stands cast := by cases cast
  stand_pos standing := by cases standing
  stand_ballot standing := by cases standing
  stand_old standing := by cases standing
  stand_rooted standing := by cases standing
  log_bound _ _ member := by cases member
  log_rooted _ := rooted_nil
  lawful found := by cases found
  agreed_le agreed := agreed.elim
  agreed_closed agreed := agreed.elim
  agreed_issued agreed := agreed.elim
  agreed_held agreed := agreed.elim
  restricted agreed := agreed.elim

/-! ## Leader completeness -/

/-- A prefix that ends in its term and that a majority has agreed on. -/
def Chosen (members : Finset ν) (termOf : ε -> Nat) (ledger : Ledger ν ε) (term : Nat)
    (part : List ε) : Prop :=
  EndsIn termOf part term ∧ Exists fun quorum =>
    Majority members quorum ∧ forall node, node ∈ quorum -> ledger.agreed node term part

omit [DecidableEq ν] in
theorem Chosen.issued (sound : Sound members termOf ledger) {term : Nat} {part : List ε}
    (chosen : Chosen members termOf ledger term part) :
    Exists fun r => ledger.reign term = some r ∧ part <+: r.log := by
  rcases chosen with ⟨_, quorum, majority, agreed⟩
  rcases majority.nonempty with ⟨node, member⟩
  exact sound.agreed_issued (agreed node member)

omit [DecidableEq ν] in
theorem Chosen.mono {after : Ledger ν ε} (grows : Extends ledger after) {term : Nat}
    {part : List ε} (chosen : Chosen members termOf ledger term part) :
    Chosen members termOf after term part := by
  rcases chosen with ⟨ends, quorum, majority, agreed⟩
  exact ⟨ends, quorum, majority, fun node member => grows.agreed (agreed node member)⟩

omit [DecidableEq ν] in
/-- A rooted log that is up to date with a chosen prefix contains it, if the
leaders in between do. -/
theorem Sound.contains_of_upToDate (sound : Sound members termOf ledger) {term : Nat}
    {part platform : List ε} {r : Reign ν ε} (found : ledger.reign term = some r)
    (issued : part <+: r.log) (ends : EndsIn termOf part term)
    (rooted : Rooted termOf ledger.reign platform) (upToDate : UpToDate termOf platform part)
    (carried : Carried ledger.reign term (lastTerm termOf platform + 1) part) :
    part <+: platform := by
  have termPos := sound.reign_pos found
  rw [UpToDate, ends.lastTerm_eq] at upToDate
  have platformEnds : EndsIn termOf platform (lastTerm termOf platform) :=
    endsIn_lastTerm (by omega)
  rcases platformEnds with ⟨init, entry, equal, sameTerm⟩
  rcases rooted init entry (by rw [equal]) with ⟨last, lastFound, platformIssued⟩
  rw [← equal] at platformIssued
  rw [sameTerm] at lastFound
  rcases upToDate with later | ⟨same, longer⟩
  · -- the platform ends in the reign of a later leader, which began with the prefix
    have lawful := sound.lawful lastFound
    have begun := carried _ last later (Nat.lt_succ_self _) lastFound
    rcases List.prefix_or_prefix_of_prefix lawful.begins platformIssued with initial | short
    · exact begun.trans initial
    · have member : entry ∈ last.initial := by
        apply short.subset
        rw [equal]
        exact List.mem_append_right init List.mem_cons_self
      have old := sound.stand_old lawful.stands entry member
      omega
  · rw [← same, found] at lastFound
    cases lastFound
    exact List.prefix_of_prefix_length_le issued platformIssued longer

/-- **Leader completeness.**  Every later leader started with a chosen prefix. -/
theorem Sound.complete (sound : Sound members termOf ledger) {term : Nat} {part : List ε}
    (chosen : Chosen members termOf ledger term part) :
    forall later r, term < later -> ledger.reign later = some r -> part <+: r.initial := by
  rcases chosen.issued sound with ⟨r0, found0, issued0⟩
  rcases chosen with ⟨ends, quorum, majority, agreed⟩
  intro later
  -- strong induction: all leaders between the two terms carry the prefix
  induction later using Nat.strong_induction_on with
  | h later inductionHypothesis =>
      intro r above found
      have carried : Carried ledger.reign term later part :=
        fun middle r' lower upper present => inductionHypothesis middle upper r' lower present
      have lawful := sound.lawful found
      rcases majority.meet lawful.elected with ⟨node, held, voted⟩
      have counted : Counted ledger node later := by
        intro r' present
        rw [found] at present
        cases present
        exact voted
      have upToDate := sound.restricted (agreed node held) ends above
        (lawful.votes node voted) lawful.stands counted carried
      have old : lastTerm termOf r.initial < later := by
        rcases eq_nil_or_endsIn termOf r.initial with empty | ⟨init, entry, equal, same⟩
        · rw [empty, lastTerm_nil]
          omega
        · rw [← same]
          apply sound.stand_old lawful.stands
          rw [equal]
          exact List.mem_append_right init List.mem_cons_self
      exact sound.contains_of_upToDate found0 issued0 ends (sound.stand_rooted lawful.stands)
        upToDate (carried.mono old)

/-- A chosen prefix is part of the log of the leader of every term from its own
on. -/
theorem Sound.chosen_isPrefix (sound : Sound members termOf ledger) {term later : Nat}
    {part : List ε} (chosen : Chosen members termOf ledger term part) (notBefore : term ≤ later)
    {r : Reign ν ε} (found : ledger.reign later = some r) : part <+: r.log := by
  rcases Nat.lt_or_eq_of_le notBefore with before | same
  · exact (sound.complete chosen later r before found).trans (sound.lawful found).begins
  · subst same
    rcases chosen.issued sound with ⟨r', found', issued⟩
    rw [found] at found'
    cases found'
    exact issued

/-- Two chosen prefixes are comparable. -/
theorem Sound.chosen_comparable (sound : Sound members termOf ledger) {term other : Nat}
    {left right : List ε} (first : Chosen members termOf ledger term left)
    (second : Chosen members termOf ledger other right) : left <+: right ∨ right <+: left := by
  rcases Nat.le_total term other with le | le
  · rcases second.issued sound with ⟨r, found, issued⟩
    exact List.prefix_or_prefix_of_prefix (sound.chosen_isPrefix first le found) issued
  · rcases first.issued sound with ⟨r, found, issued⟩
    exact List.prefix_or_prefix_of_prefix issued (sound.chosen_isPrefix second le found)

/-! ## Durable prefixes -/

/-- A prefix that no leader from the given term on can do without: it is empty
or part of a prefix chosen by then. -/
def Durable (members : Finset ν) (termOf : ε -> Nat) (ledger : Ledger ν ε) (term : Nat)
    (part : List ε) : Prop :=
  part = [] ∨ Exists fun origin => Exists fun whole =>
    origin ≤ term ∧ Chosen members termOf ledger origin whole ∧ part <+: whole

omit [DecidableEq ν] in
theorem Chosen.durable {term : Nat} {part : List ε}
    (chosen : Chosen members termOf ledger term part) : Durable members termOf ledger term part :=
  Or.inr ⟨term, part, Nat.le_refl _, chosen, List.prefix_rfl⟩

omit [DecidableEq ν] in
theorem Durable.of_isPrefix {term : Nat} {part shorter : List ε}
    (durable : Durable members termOf ledger term part) (begins : shorter <+: part) :
    Durable members termOf ledger term shorter := by
  rcases durable with rfl | ⟨origin, whole, notAfter, chosen, within⟩
  · exact Or.inl (List.prefix_nil.mp begins)
  · exact Or.inr ⟨origin, whole, notAfter, chosen, begins.trans within⟩

omit [DecidableEq ν] in
theorem Durable.mono {after : Ledger ν ε} (grows : Extends ledger after) {term later : Nat}
    (notBefore : term ≤ later) {part : List ε} (durable : Durable members termOf ledger term part) :
    Durable members termOf after later part := by
  rcases durable with empty | ⟨origin, whole, notAfter, chosen, within⟩
  · exact Or.inl empty
  · exact Or.inr ⟨origin, whole, Nat.le_trans notAfter notBefore, chosen.mono grows, within⟩

/-- A durable prefix is part of the log of every leader from its term on. -/
theorem Sound.durable_isPrefix (sound : Sound members termOf ledger) {term : Nat} {part : List ε}
    (durable : Durable members termOf ledger term part) {r : Reign ν ε}
    (found : ledger.reign term = some r) : part <+: r.log := by
  rcases durable with rfl | ⟨origin, whole, notAfter, chosen, within⟩
  · exact List.nil_prefix
  · exact within.trans (sound.chosen_isPrefix chosen notAfter found)

/-- Two durable prefixes are comparable. -/
theorem Sound.durable_comparable (sound : Sound members termOf ledger) {term other : Nat}
    {left right : List ε} (first : Durable members termOf ledger term left)
    (second : Durable members termOf ledger other right) : left <+: right ∨ right <+: left := by
  rcases first with rfl | ⟨_, leftWhole, _, leftChosen, leftWithin⟩
  · exact Or.inl List.nil_prefix
  · rcases second with rfl | ⟨_, rightWhole, _, rightChosen, rightWithin⟩
    · exact Or.inr List.nil_prefix
    · rcases sound.chosen_comparable leftChosen rightChosen with shorter | longer
      · exact List.prefix_or_prefix_of_prefix (leftWithin.trans shorter) rightWithin
      · exact List.prefix_or_prefix_of_prefix leftWithin (rightWithin.trans longer)

/-- **A node never gives up a durable prefix.**  It overlays its log only with
what a leader of its own term has issued, and that leader has the prefix too. -/
theorem Step.keeps_durable [DecidableEq ε] (sound : Sound members termOf ledger)
    {after : Ledger ν ε} (step : Step members termOf actor ledger after) {node : ν} {part : List ε}
    (durable : Durable members termOf ledger (ledger.term node) part)
    (held : part <+: ledger.log node) : part <+: after.log node := by
  by_cases acting : node = actor
  · subst acting
    cases step with
    | advance term later => exact held
    | campaign => exact held
    | grant candidate platform free stands upToDate => exact held
    | elect electors majority votes stands vacant => exact held
    | extend r entry leads own current =>
        simp only [Function.update_self]
        exact held.trans (List.prefix_append _ _)
    | accept r issued leads issues =>
        simp only [Function.update_self]
        exact isPrefix_overlay_of_common issues (sound.durable_isPrefix durable leads) held
    | agree => exact held
  · rw [(step.moves sound).log_eq acting]
    exact held

theorem Steps.keeps_durable [DecidableEq ε] {after : Ledger ν ε}
    (steps : Steps members termOf actor ledger after) (sound : Sound members termOf ledger)
    {node : ν} {part : List ε} (durable : Durable members termOf ledger (ledger.term node) part)
    (held : part <+: ledger.log node) : part <+: after.log node := by
  induction steps with
  | refl => exact held
  | tail earlier step inductionHypothesis =>
      have moves := Steps.moves earlier sound
      exact step.keeps_durable (Steps.sound earlier sound)
        (durable.mono moves.toExtends (moves.term_le node)) inductionHypothesis

end Consensus
end RaftStore
