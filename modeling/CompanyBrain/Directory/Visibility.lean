import CompanyBrain.Directory.Person

namespace CompanyBrain.Directory

inductive VisibilityTarget where
  | dm (ownerId : String)
  | group (groupId : String)
  | channel (channelId : String) (isPrivate : Option Bool)

structure VisibilityDirectory where
  channelMember : String → String → Except String Bool
  groupMember : String → String → Except String Bool
  listChannelsFor : Option (String → Except String (List String))
  get : String → Except String (Option String)
  channelPrivacy : Option (String → Except String (Option Bool))

def isVisible (letters : Letters) (dir : VisibilityDirectory) (actorId : String) : VisibilityTarget → Except String Bool
  | .dm ownerId => .ok (samePerson letters actorId ownerId)
  | .group groupId => dir.groupMember groupId actorId
  | .channel channelId (some true) => dir.channelMember channelId actorId
  | .channel _ (some false) => .ok true
  | .channel channelId none =>
    match dir.listChannelsFor with
    | none => .ok false
    | some list => (list actorId).map fun channels => channels.contains channelId

end CompanyBrain.Directory
