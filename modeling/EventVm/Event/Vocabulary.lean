/-!
# Events

The host raises events from a fixed vocabulary; each has the name of the entry point that handles it
and belongs to a category. Every other name is a custom event of some program.
-/

namespace EventVm

/-- What a group of events is about. -/
inductive EventCategory where
  | lifecycle
  | physics
  | rendering
  | input
  | interaction
  | player
  | media
  | network
  | custom
  deriving DecidableEq, Repr

namespace EventCategory

/-- All categories, in order. -/
def all : List EventCategory :=
  [lifecycle, physics, rendering, input, interaction, player, media, network, custom]

/-- The name of a category. -/
def name : EventCategory → String
  | lifecycle => "Lifecycle"
  | physics => "Physics"
  | rendering => "Rendering"
  | input => "Input"
  | interaction => "Interaction"
  | player => "Player"
  | media => "Media"
  | network => "Network"
  | custom => "Custom"

end EventCategory

/-- An event that the host raises. -/
inductive EventKind where
  | start
  | update
  | lateUpdate
  | fixedUpdate
  | enable
  | disable
  | destroy
  | collisionEnter
  | collisionExit
  | collisionStay
  | collisionEnter2D
  | collisionExit2D
  | collisionStay2D
  | triggerEnter
  | triggerExit
  | triggerStay
  | triggerEnter2D
  | triggerExit2D
  | triggerStay2D
  | jointBreak
  | jointBreak2D
  | controllerColliderHit
  | particleCollision
  | animatorIk
  | animatorMove
  | becameVisible
  | becameInvisible
  | willRenderObject
  | preCull
  | preRender
  | postRender
  | renderObject
  | mouseDown
  | mouseUp
  | mouseUpAsButton
  | mouseEnter
  | mouseExit
  | mouseOver
  | mouseDrag
  | interact
  | drop
  | pickup
  | pickupUseDown
  | pickupUseUp
  | ownershipTransferred
  | playerJoined
  | playerLeft
  | spawn
  | stationEntered
  | stationExited
  | videoEnd
  | videoPause
  | videoPlay
  | videoStart
  | preSerialization
  | deserialization
  deriving DecidableEq, Repr

namespace EventKind

/-- The events of the category `lifecycle`. -/
def lifecycleEvents : List EventKind :=
  [start, update, lateUpdate, fixedUpdate, enable, disable, destroy]

/-- The events of the category `physics`. -/
def physicsEvents : List EventKind :=
  [collisionEnter, collisionExit, collisionStay, collisionEnter2D, collisionExit2D,
    collisionStay2D, triggerEnter, triggerExit, triggerStay, triggerEnter2D, triggerExit2D,
    triggerStay2D, jointBreak, jointBreak2D, controllerColliderHit, particleCollision, animatorIk,
    animatorMove]

/-- The events of the category `rendering`. -/
def renderingEvents : List EventKind :=
  [becameVisible, becameInvisible, willRenderObject, preCull, preRender, postRender, renderObject]

/-- The events of the category `input`. -/
def inputEvents : List EventKind :=
  [mouseDown, mouseUp, mouseUpAsButton, mouseEnter, mouseExit, mouseOver, mouseDrag]

/-- The events of the category `interaction`. -/
def interactionEvents : List EventKind :=
  [interact, drop, pickup, pickupUseDown, pickupUseUp, ownershipTransferred]

/-- The events of the category `player`. -/
def playerEvents : List EventKind :=
  [playerJoined, playerLeft, spawn, stationEntered, stationExited]

/-- The events of the category `media`. -/
def mediaEvents : List EventKind :=
  [videoEnd, videoPause, videoPlay, videoStart]

/-- The events of the category `network`. -/
def networkEvents : List EventKind :=
  [preSerialization, deserialization]

/-- The whole vocabulary, in order. -/
def all : List EventKind :=
  lifecycleEvents ++ physicsEvents ++ renderingEvents ++ inputEvents ++
    interactionEvents ++ playerEvents ++ mediaEvents ++ networkEvents

/-- The name of the event. -/
def title : EventKind → String
  | start => "Start"
  | update => "Update"
  | lateUpdate => "LateUpdate"
  | fixedUpdate => "FixedUpdate"
  | enable => "Enable"
  | disable => "Disable"
  | destroy => "Destroy"
  | collisionEnter => "CollisionEnter"
  | collisionExit => "CollisionExit"
  | collisionStay => "CollisionStay"
  | collisionEnter2D => "CollisionEnter2D"
  | collisionExit2D => "CollisionExit2D"
  | collisionStay2D => "CollisionStay2D"
  | triggerEnter => "TriggerEnter"
  | triggerExit => "TriggerExit"
  | triggerStay => "TriggerStay"
  | triggerEnter2D => "TriggerEnter2D"
  | triggerExit2D => "TriggerExit2D"
  | triggerStay2D => "TriggerStay2D"
  | jointBreak => "JointBreak"
  | jointBreak2D => "JointBreak2D"
  | controllerColliderHit => "ControllerColliderHit"
  | particleCollision => "ParticleCollision"
  | animatorIk => "AnimatorIk"
  | animatorMove => "AnimatorMove"
  | becameVisible => "BecameVisible"
  | becameInvisible => "BecameInvisible"
  | willRenderObject => "WillRenderObject"
  | preCull => "PreCull"
  | preRender => "PreRender"
  | postRender => "PostRender"
  | renderObject => "RenderObject"
  | mouseDown => "MouseDown"
  | mouseUp => "MouseUp"
  | mouseUpAsButton => "MouseUpAsButton"
  | mouseEnter => "MouseEnter"
  | mouseExit => "MouseExit"
  | mouseOver => "MouseOver"
  | mouseDrag => "MouseDrag"
  | interact => "Interact"
  | drop => "Drop"
  | pickup => "Pickup"
  | pickupUseDown => "PickupUseDown"
  | pickupUseUp => "PickupUseUp"
  | ownershipTransferred => "OwnershipTransferred"
  | playerJoined => "PlayerJoined"
  | playerLeft => "PlayerLeft"
  | spawn => "Spawn"
  | stationEntered => "StationEntered"
  | stationExited => "StationExited"
  | videoEnd => "VideoEnd"
  | videoPause => "VideoPause"
  | videoPlay => "VideoPlay"
  | videoStart => "VideoStart"
  | preSerialization => "PreSerialization"
  | deserialization => "Deserialization"

/-- The name of the entry point that handles the event. -/
def entryName : EventKind → String
  | start => "_start"
  | update => "_update"
  | lateUpdate => "_lateUpdate"
  | fixedUpdate => "_fixedUpdate"
  | enable => "_onEnable"
  | disable => "_onDisable"
  | destroy => "_onDestroy"
  | collisionEnter => "_onCollisionEnter"
  | collisionExit => "_onCollisionExit"
  | collisionStay => "_onCollisionStay"
  | collisionEnter2D => "_onCollisionEnter2D"
  | collisionExit2D => "_onCollisionExit2D"
  | collisionStay2D => "_onCollisionStay2D"
  | triggerEnter => "_onTriggerEnter"
  | triggerExit => "_onTriggerExit"
  | triggerStay => "_onTriggerStay"
  | triggerEnter2D => "_onTriggerEnter2D"
  | triggerExit2D => "_onTriggerExit2D"
  | triggerStay2D => "_onTriggerStay2D"
  | jointBreak => "_onJointBreak"
  | jointBreak2D => "_onJointBreak2D"
  | controllerColliderHit => "_onControllerColliderHit"
  | particleCollision => "_onParticleCollision"
  | animatorIk => "_onAnimatorIk"
  | animatorMove => "_onAnimatorMove"
  | becameVisible => "_onBecameVisible"
  | becameInvisible => "_onBecameInvisible"
  | willRenderObject => "_onWillRenderObject"
  | preCull => "_onPreCull"
  | preRender => "_onPreRender"
  | postRender => "_onPostRender"
  | renderObject => "_onRenderObject"
  | mouseDown => "_onMouseDown"
  | mouseUp => "_onMouseUp"
  | mouseUpAsButton => "_onMouseUpAsButton"
  | mouseEnter => "_onMouseEnter"
  | mouseExit => "_onMouseExit"
  | mouseOver => "_onMouseOver"
  | mouseDrag => "_onMouseDrag"
  | interact => "_interact"
  | drop => "_onDrop"
  | pickup => "_onPickup"
  | pickupUseDown => "_onPickupUseDown"
  | pickupUseUp => "_onPickupUseUp"
  | ownershipTransferred => "_onOwnershipTransferred"
  | playerJoined => "_onPlayerJoined"
  | playerLeft => "_onPlayerLeft"
  | spawn => "_onSpawn"
  | stationEntered => "_onStationEntered"
  | stationExited => "_onStationExited"
  | videoEnd => "_onVideoEnd"
  | videoPause => "_onVideoPause"
  | videoPlay => "_onVideoPlay"
  | videoStart => "_onVideoStart"
  | preSerialization => "_onPreSerialization"
  | deserialization => "_onDeserialization"

/-- The category of the event. -/
def category : EventKind → EventCategory
  | start | update | lateUpdate | fixedUpdate | enable | disable | destroy => .lifecycle
  | collisionEnter | collisionExit | collisionStay | collisionEnter2D | collisionExit2D |
    collisionStay2D | triggerEnter | triggerExit | triggerStay | triggerEnter2D | triggerExit2D |
    triggerStay2D | jointBreak | jointBreak2D | controllerColliderHit | particleCollision |
    animatorIk | animatorMove => .physics
  | becameVisible | becameInvisible | willRenderObject | preCull | preRender | postRender |
    renderObject => .rendering
  | mouseDown | mouseUp | mouseUpAsButton | mouseEnter | mouseExit | mouseOver |
    mouseDrag => .input
  | interact | drop | pickup | pickupUseDown | pickupUseUp | ownershipTransferred => .interaction
  | playerJoined | playerLeft | spawn | stationEntered | stationExited => .player
  | videoEnd | videoPause | videoPlay | videoStart => .media
  | preSerialization | deserialization => .network

/-- The event that an entry point of the given name handles. -/
def ofEntryName? (name : String) : Option EventKind :=
  all.find? fun k => k.entryName == name

theorem mem_all (k : EventKind) : k ∈ all := by
  cases k <;> decide

theorem entryName_of_ofEntryName? {name : String} {k : EventKind} (h : ofEntryName? name = some k) :
    k.entryName = name := by
  simpa using List.find?_some h

end EventKind

end EventVm
