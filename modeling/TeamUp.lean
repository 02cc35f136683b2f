import TeamUp.Conversations
import TeamUp.DeletedChats
import TeamUp.MessageCopies
import TeamUp.ChatScreen
import TeamUp.Mirrors
import TeamUp.PlayingNow
import TeamUp.ProfileEdits
import TeamUp.Requests
import TeamUp.InterruptedSetup
import TeamUp.SignedIn
import TeamUp.RequestsAd
import TeamUp.Images
import TeamUp.FCMToken
import TeamUp.Records
import TeamUp.MessageOrder
import TeamUp.Cleanup
import TeamUp.Filters
import TeamUp.TeammateOrder
import TeamUp.StoredGames
import TeamUp.Platforms
import TeamUp.AbandonedGames
import TeamUp.GameCells
import TeamUp.RequestCells
import TeamUp.Prompts
import TeamUp.SignOut
import TeamUp.UserSearch
import TeamUp.ReadMarks
import TeamUp.Badges
import TeamUp.ReusedCells
import TeamUp.Completions
import TeamUp.FilterRows
import TeamUp.GameSearch
import TeamUp.FeedbackLoop
import TeamUp.FetchUsers
import TeamUp.Authorship
import TeamUp.Authenticity
import TeamUp.Endings
import TeamUp.Independence
import TeamUp.Ownership
import TeamUp.Community
import TeamUp.ProfileScreen
import TeamUp.ShownCommunity
import TeamUp.ListScreens
import TeamUp.SelectGame
import TeamUp.ShownConversations
import TeamUp.Lobby
