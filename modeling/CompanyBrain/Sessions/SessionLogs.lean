import CompanyBrain.Sessions.MemoryRoom
import CompanyBrain.Sessions.PostgresRoom

namespace CompanyBrain.Sessions

open Foundations

theorem session_log_exclusive : (∀ (ttl : Option Int) (calls : List RoomCall), FreshRoom calls → ∀ sessionId,
      ExclusiveLog sessionId ((roomAfter ttl calls).store.log sessionId)
        (leaseHistory sessionId (roomSeen ttl calls))) ∧
    ∀ (cfg : Pg.Config) (acts : List Pg.Act), (acts.flatMap Pg.Act.draws).Nodup → ∀ sessionId,
      ExclusiveLog sessionId ((Pg.reached cfg acts).db.getEntries sessionId)
        (leaseHistory sessionId (Pg.seen cfg acts)) := by
  constructor
  · intro ttl calls fresh sessionId
    obtain ⟨_,reached,tokens⟩ := room_run ttl calls fresh.sessions
    exact reached.exclusive (fresh.tokens.sublist tokens) sessionId
  · intro cfg acts fresh sessionId
    obtain ⟨_,reached,tokens⟩ := Pg.pg_run cfg acts
    rw [Pg.getEntries_eq (reached.numbered sessionId)]
    exact reached.exclusive (fresh.sublist tokens) sessionId

def hello : NewEntry := ⟨.user,.null,"personal:ana"⟩

def takeover : List RoomCall :=
  [.openSession ⟨"slack:1",.dm,"personal:ana",none,none⟩ "s" (fun _ => 0),
    .acquireLease "s" none "t1" (fun _ => 0),.append ⟨"s","t1"⟩ hello (fun _ => 0),
    .acquireLease "s" none "t2" (fun _ => 200),.append ⟨"s","t1"⟩ hello (fun _ => 200),
    .append ⟨"s","t2"⟩ hello (fun _ => 200)]

def takeoverActs : List Pg.Act :=
  [.acquireLease "s" none "t1" 0,.append ⟨"s","t1"⟩ hello,.select 0,.renew 0 0,.number 0 0,
    .insert 0,.acquireLease "s" none "t2" 200,.commit 0,.acquireLease "s" none "t3" 200,
    .append ⟨"s","t1"⟩ hello,.select 1]

theorem session_log_exclusive_takeover : ExclusiveLog "s" ((roomAfter (some 100) takeover).store.log "s")
        (leaseHistory "s" (roomSeen (some 100) takeover)) ∧
      ((roomAfter (some 100) takeover).store.log "s").map SessionEntry.seq = [0,1] ∧
      ExclusiveLog "s" ((Pg.reached ⟨100,id⟩ takeoverActs).db.getEntries "s")
        (leaseHistory "s" (Pg.seen ⟨100,id⟩ takeoverActs)) ∧
      ((Pg.reached ⟨100,id⟩ takeoverActs).db.getEntries "s").map SessionEntry.seq = [0] :=
  ⟨session_log_exclusive.1 (some 100) takeover ⟨by decide,by decide⟩ "s",by decide,
    session_log_exclusive.2 ⟨100,id⟩ takeoverActs (by decide) "s",by decide⟩

theorem visible_latest_membership :
    (∀ (ttl : Option Int) (calls : List RoomCall), (calls.flatMap RoomCall.opens).Nodup → ∀ sessionId principalId,
        MembershipView (memberHistory sessionId principalId (roomSeen ttl calls))
          ((roomAfter ttl calls).visibleEntries sessionId principalId)) ∧
    ∀ (cfg : Pg.Config) (acts : List Pg.Act) (sessionId principalId : String),
      MembershipView (memberHistory sessionId principalId (Pg.seen cfg acts))
        ((Pg.reached cfg acts).db.visibleEntries sessionId principalId) := by
  constructor
  · intro ttl calls fresh sessionId principalId
    obtain ⟨_,reached,_⟩ := room_run ttl calls fresh
    rw [visibleEntries_eq]
    exact reached.membership sessionId principalId
  · intro cfg acts sessionId principalId
    obtain ⟨sound,reached,_⟩ := Pg.pg_run cfg acts
    rw [Pg.visibleEntries_eq principalId sound.sequenced (reached.numbered sessionId)]
    exact reached.membership sessionId principalId

def rejoin : List RoomCall :=
  [.openSession ⟨"slack:1",.dm,"personal:ana",none,none⟩ "s" (fun _ => 0),
    .acquireLease "s" none "t1" (fun _ => 0),.addParticipant "s" "bo" none false (fun _ => 0),
    .append ⟨"s","t1"⟩ hello (fun _ => 0),.removeParticipant "s" "bo" (fun _ => 0),
    .append ⟨"s","t1"⟩ hello (fun _ => 0),.addParticipant "s" "bo" none false (fun _ => 0),
    .append ⟨"s","t1"⟩ hello (fun _ => 0)]

theorem visible_latest_membership_rejoin : MembershipView (memberHistory "s" "bo" (roomSeen none rejoin))
        ((roomAfter none rejoin).visibleEntries "s" "bo") ∧
      ((roomAfter none rejoin).visibleEntries "s" "bo").map SessionEntry.seq = [2] :=
  ⟨visible_latest_membership.1 none rejoin (by decide) "s" "bo",by decide⟩

end CompanyBrain.Sessions
